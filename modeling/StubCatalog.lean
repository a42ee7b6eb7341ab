import StubCatalog.Main
import StubCatalog.Proofs.TypeExpr.CommonSubtype
import StubCatalog.Proofs.TypeExpr.OverlapSymmetry
import StubCatalog.Proofs.TypeExpr.RoundTrip
import StubCatalog.Proofs.TypeExpr.Transitivity
import StubCatalog.Proofs.Build.Completion
import StubCatalog.Proofs.Query.Inheritance
import StubCatalog.Proofs.Query.Comparison
import StubCatalog.Proofs.TypeExpr.Resolution
import StubCatalog.Proofs.Snapshot.Reload
import StubCatalog.Proofs.Build.Namespaces
import StubCatalog.Proofs.TypeExpr.Collapsing
import StubCatalog.Proofs.TypeExpr.Operands
import StubCatalog.Proofs.Build.ReferenceChains
import StubCatalog.Proofs.Build.TraitMembers
import StubCatalog.Proofs.TypeExpr.IntegerTypes
import StubCatalog.Proofs.TypeExpr.Joining
import StubCatalog.Proofs.Stub.Faults
import StubCatalog.Proofs.Stub.GroupImports
import StubCatalog.Proofs.TypeExpr.Lossless
import StubCatalog.Proofs.Docblock.Precedence
import StubCatalog.Proofs.Docblock.TypeEnd
