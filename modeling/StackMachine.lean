import StackMachine.Text.Blank
import StackMachine.Text.Quoted
import StackMachine.Machine.Seed
import StackMachine.Machine.Run
import StackMachine.Random.Script
import StackMachine.Random.Keystream
import StackMachine.Logger
import StackMachine.Interpreter.Synthesis
import StackMachine.Json.Codec
import StackMachine.Options.Toml
import StackMachine.Proofs.Rounds
import StackMachine.Proofs.Atomicity
import StackMachine.Proofs.Firing
import StackMachine.Proofs.Layout
import StackMachine.Proofs.Resolution
import StackMachine.Proofs.Budget
import StackMachine.Proofs.Seeding
import StackMachine.Proofs.Resumption
import StackMachine.Proofs.FloatBits
import StackMachine.Proofs.NearestFloat
import StackMachine.Proofs.Tokens
import StackMachine.Proofs.ShortestDecimal
import StackMachine.Proofs.NumberTexts
import StackMachine.Proofs.JsonTexts
import StackMachine.Proofs.SnapshotTexts
import StackMachine.Proofs.Adoption
import StackMachine.Proofs.Growth
import StackMachine.Proofs.Randomness
import StackMachine.Proofs.Words
import StackMachine.Proofs.Synthesis
import StackMachine.Proofs.Locality
import StackMachine.Proofs.ByteOrder
import StackMachine.Proofs.Configuration
import StackMachine.Proofs.Observation
import StackMachine.Proofs.Literals
import StackMachine.Proofs.Compaction
import StackMachine.Proofs.Abbreviations
import StackMachine.Proofs.WordArithmetic
import StackMachine.Proofs.Spacing
import StackMachine.Proofs.Validation
import StackMachine.Proofs.TomlTexts
import StackMachine.Proofs.OptionsTexts
import StackMachine.Proofs.LackingStacks
import StackMachine.Proofs.Delivery
import StackMachine.Proofs.Moves
import StackMachine.Proofs.Registration
import StackMachine.Proofs.InstructionTexts
import StackMachine.Proofs.IntegerLiterals
import StackMachine.Proofs.DrawRanges
