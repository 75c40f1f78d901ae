import MotionControl.Geometry.PathPose
import MotionControl.Mode.Machine
import MotionControl.Settings.Catalog
import MotionControl.Settings.Load
import MotionControl.Control.Node.Access
import MotionControl.Control.StandardTree
import MotionControl.Control.Node.Cycle
import MotionControl.Control.Node.Fan
import MotionControl.Engine.Build
import MotionControl.Engine.Procedure
import MotionControl.Telemetry.Worker
import MotionControl.Simulation.Bench
import MotionControl.Task
import MotionControl.Main
import MotionControl.Proofs.Tree.Semantics
import MotionControl.Proofs.Tree.Cascade
import MotionControl.Proofs.Engine.Actuation
import MotionControl.Proofs.Tree.Order
import MotionControl.Proofs.Engine.Phases
import MotionControl.Proofs.Engine.StallDisplay
import MotionControl.Proofs.Engine.Arrival
import MotionControl.Proofs.Engine.AxisArrival
import MotionControl.Proofs.Engine.Waypoints
import MotionControl.Proofs.Engine.Timeout
import MotionControl.Proofs.Engine.Refusal
import MotionControl.Proofs.Engine.Answers
import MotionControl.Proofs.Engine.Reporting
import MotionControl.Proofs.Engine.Consistency
import MotionControl.Proofs.Engine.Announcements
import MotionControl.Proofs.Telemetry.Exchange
import MotionControl.Proofs.Telemetry.Conservation
import MotionControl.Proofs.Telemetry.Joining
import MotionControl.Proofs.Telemetry.Framing
import MotionControl.Proofs.Tree.SpeedMode
import MotionControl.Proofs.Engine.Duties
import MotionControl.Proofs.Engine.Kinematics
import MotionControl.Proofs.Engine.Resuming
import MotionControl.Proofs.Engine.SpeedLimits
import MotionControl.Proofs.Engine.Tuning
import MotionControl.Proofs.Ramp.Settling
import MotionControl.Proofs.Tree.Symmetry
import MotionControl.Proofs.Engine.SpeedLoop
import MotionControl.Proofs.Engine.ArrivalPolicies
import MotionControl.Proofs.Move.Reversing
import MotionControl.Proofs.Geometry.Reversal
import MotionControl.Proofs.Tree.Parts
import MotionControl.Proofs.Tree.Retuning
import MotionControl.Proofs.Tree.Claims
import MotionControl.Proofs.Task
import MotionControl.Proofs.Bank
