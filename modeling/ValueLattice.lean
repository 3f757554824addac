import ValueLattice.Analysis
import ValueLattice.Proofs.RangeSetLaws
import ValueLattice.Proofs.Elements.Congruence
import ValueLattice.Proofs.Elements.Lattice
import ValueLattice.Constraint.Recalled
import ValueLattice.Proofs.Requests
import ValueLattice.Proofs.ConstraintLaws
import ValueLattice.Proofs.Elements.Widening
import ValueLattice.Proofs.Elements.Ascents
import ValueLattice.Proofs.Elements.FieldAscents
import ValueLattice.Proofs.RangeSetUnions
import ValueLattice.Proofs.Elements.JoinComponents
import ValueLattice.Proofs.Elements.LeastJoins
import ValueLattice.Proofs.Elements.ConstantMeets
import ValueLattice.Proofs.Elements.Complements
import ValueLattice.Proofs.MaximalItems
import ValueLattice.Proofs.ItemSets
import ValueLattice.Proofs.StoppedRuns
import ValueLattice.Proofs.Elements.IntegralFactories
import ValueLattice.Proofs.PayloadKeys
import ValueLattice.Proofs.Elements.ConstantKeys
import ValueLattice.Proofs.HostValues
import ValueLattice.Proofs.Elements.Literals
import ValueLattice.Proofs.Elements.Boxing
import ValueLattice.Proofs.LoggerTrees
