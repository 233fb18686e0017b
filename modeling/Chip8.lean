import Chip8.Description
import Chip8.Frames
import Chip8.Image
import Chip8.Instruction.Listing
import Chip8.Log.Request
import Chip8.Picture
import Chip8.Proofs.Atomicity
import Chip8.Proofs.Opcode
import Chip8.Proofs.Stack
import Chip8.Proofs.Transfer
import Chip8.Proofs.FaultCondition
import Chip8.Proofs.WellFormed
import Chip8.Proofs.Reach
import Chip8.Proofs.Reserved
import Chip8.Proofs.Table
import Chip8.Proofs.Dispatch
import Chip8.Proofs.Checked
import Chip8.Proofs.Session
import Chip8.Proofs.Return
import Chip8.Proofs.Waiting
import Chip8.Proofs.Frames
import Chip8.Proofs.Diagnosis
import Chip8.Proofs.Commute
import Chip8.Proofs.Executed
import Chip8.Proofs.Redraw
import Chip8.Proofs.Restart
import Chip8.Proofs.Timers
import Chip8.Proofs.Steps
import Chip8.Proofs.Course
import Chip8.Proofs.Summary
import Chip8.Proofs.Pacing
import Chip8.Proofs.Draws
import Chip8.Proofs.Dialects
import Chip8.Proofs.Assembly
import Chip8.Proofs.Listing
import Chip8.Proofs.Plotting
import Chip8.Proofs.Reading
import Chip8.Proofs.Writes
import Chip8.Proofs.Counter
import Chip8.Proofs.Arithmetic
import Chip8.Proofs.HostTransfer
import Chip8.Proofs.RoundTrip
import Chip8.Proofs.Wrapping
import Chip8.Proofs.Erasing
import Chip8.Proofs.FetchExecute
import Chip8.Proofs.Pile
import Chip8.Proofs.Legible
import Chip8.Proofs.Enlarging
