import RealMode.Main
import RealMode.Proofs.Assembly.Coherence
import RealMode.Proofs.Assembly.Listing
import RealMode.Proofs.Bytes.BigEndian
import RealMode.Proofs.Encoding.Alternatives
import RealMode.Proofs.Encoding.Direction
import RealMode.Proofs.Encoding.Encoder
import RealMode.Proofs.Encoding.Resolution
import RealMode.Proofs.Output.Agreement
import RealMode.Proofs.Registers.Adjustment
import RealMode.Proofs.Registers.Dump
import RealMode.Proofs.Registers.Effect
import RealMode.Proofs.Run.Atomicity
import RealMode.Proofs.Run.Concatenation
import RealMode.Proofs.Run.Independence
import RealMode.Proofs.Run.Restart
import RealMode.Proofs.Run.Safety
import RealMode.Proofs.Run.Termination
import RealMode.Proofs.Session.Position
import RealMode.Proofs.Session.Reload
import RealMode.Proofs.Session.Settings
