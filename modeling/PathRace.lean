import PathRace.Dial
import PathRace.Exchange
import PathRace.Crypto.Suite
import PathRace.Gate
import PathRace.Schedule
import PathRace.Proofs.Session.Outcome
import PathRace.Proofs.Channel.Delivery
import PathRace.Proofs.Election.WinnerTakesAll
import PathRace.Proofs.Exchange.Nonces
import PathRace.Proofs.Election.Contract
import PathRace.Proofs.Pair.Integrity
import PathRace.Proofs.Reception.Chunks
import PathRace.Proofs.Race.Stream
import PathRace.Proofs.World.Convergence
import PathRace.Proofs.Connection.FailStop
import PathRace.Proofs.Connection.Lifetime
import PathRace.Proofs.Channel.Cancelled
import PathRace.Proofs.World.Farewell
import PathRace.Proofs.Signal.SingleFire
import PathRace.Proofs.Election.Failures
import PathRace.Proofs.World.Table
import PathRace.Proofs.Session.Verdict
import PathRace.Proofs.Exchange.Containment
import PathRace.Proofs.Exchange.Isolation
import PathRace.Proofs.Channel.Refusal
import PathRace.Proofs.World.Dialling
import PathRace.Proofs.Wire.Framing
import PathRace.Proofs.Wire.InStep
import PathRace.Proofs.Election.Window
import PathRace.Proofs.Station.Count
import PathRace.Proofs.Backlog.Polling
import PathRace.Proofs.Station.Wire
import PathRace.Proofs.Loopback.History
import PathRace.Proofs.World.Load
import PathRace.Proofs.Election.Loop
