import Strapdown.Main
import Strapdown.Proofs.Binary.Packing
import Strapdown.Proofs.Attitude.Accuracy
import Strapdown.Proofs.Attitude.Length
import Strapdown.Proofs.Attitude.UnitNorm
import Strapdown.Proofs.Binary.Largest
import Strapdown.Proofs.Gyro
import Strapdown.Proofs.Profile
import Strapdown.Proofs.Simulation.Attitudes
import Strapdown.Proofs.Simulation.Resumption
import Strapdown.Proofs.Scenario.Rewriting
import Strapdown.Proofs.Exact.Exponential
import Strapdown.Proofs.Exact.Geodesic
import Strapdown.Proofs.Exact.Logarithm
import Strapdown.Proofs.Exact.Flight
import Strapdown.Proofs.Scenario.Accepted
import Strapdown.Proofs.Binary.Bounded
import Strapdown.Proofs.Exact.Drift
import Strapdown.Proofs.Attitude.Finite
import Strapdown.Proofs.Attitude.Domains
import Strapdown.Proofs.Binary.ZeroSigns
import Strapdown.Proofs.Attitude.Alike
import Strapdown.Proofs.Simulation.IdealGyro
import Strapdown.Proofs.Exact.Rotation
import Strapdown.Proofs.Binary.Counts
import Strapdown.Proofs.Exact.EulerAngles
import Strapdown.Proofs.Scenario.StepCounts
import Strapdown.Proofs.Exact.Inverse
import Strapdown.Proofs.Exact.ErrorMeasures
import Strapdown.Proofs.Simulation.Counters
import Strapdown.Proofs.Simulation.Finish
import Strapdown.Proofs.Simulation.Warnings
import Strapdown.Proofs.Binary.Range
import Strapdown.Proofs.Attitude.Directions
import Strapdown.Proofs.Simulation.Clock
import Strapdown.Proofs.Simulation.Reports
import Strapdown.Proofs.Simulation.Outputs
import Strapdown.Proofs.Binary.Negation
import Strapdown.Proofs.Attitude.Antipodal
import Strapdown.Proofs.Attitude.ErrorSigns
import Strapdown.Proofs.Simulation.EitherSign
import Strapdown.Proofs.Exact.AngleMetric
import Strapdown.Proofs.Exact.BiasDrift
import Strapdown.Proofs.Attitude.AxisAngle
import Strapdown.Proofs.Exact.AxisAngle
import Strapdown.Proofs.Attitude.Mirror
import Strapdown.Proofs.Scenario.PartialDocuments
import Strapdown.Proofs.CommandLine.Output
import Strapdown.Proofs.Yaml.Lossless
import Strapdown.Proofs.Attitude.Magnitudes
