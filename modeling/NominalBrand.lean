import NominalBrand.BareProgram
import NominalBrand.Base.Catalogue
import NominalBrand.Chain
import NominalBrand.Clamp
import NominalBrand.Holder
import NominalBrand.Inspection
import NominalBrand.Keyed.Hashed
import NominalBrand.Keyed.Ordered
import NominalBrand.Keyed.Plain
import NominalBrand.Marker
import NominalBrand.Reading
import NominalBrand.ScopeProgram
import NominalBrand.Shape
import NominalBrand.Strategy
import NominalBrand.Workshop
import NominalBrand.Proofs.ListBranding
import NominalBrand.Proofs.Requests
import NominalBrand.Proofs.EventLog
import NominalBrand.Proofs.Erasure
import NominalBrand.Proofs.Keyed.Agreement
import NominalBrand.Proofs.Parametricity
import NominalBrand.Proofs.Validity
import NominalBrand.Proofs.Batches
import NominalBrand.Proofs.Scopes
import NominalBrand.Proofs.Sharing
import NominalBrand.Proofs.Operators
import NominalBrand.Proofs.Chains
import NominalBrand.Proofs.Asserting
import NominalBrand.Proofs.Formatting
import NominalBrand.Proofs.Sorting
import NominalBrand.Proofs.Wrapping
import NominalBrand.Proofs.Generation
import NominalBrand.Proofs.TypeNames
import NominalBrand.Proofs.Clamping
import NominalBrand.Proofs.Numerals
import NominalBrand.Proofs.Reading
