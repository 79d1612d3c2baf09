import OctetPattern.Main
import OctetPattern.Proofs.RoundTrip
import OctetPattern.Proofs.Merging
import OctetPattern.Proofs.Continuing
import OctetPattern.Proofs.Grouping
import OctetPattern.Proofs.Scoping
import OctetPattern.Proofs.Layout
import OctetPattern.Proofs.Dangling
import OctetPattern.Proofs.Enclosing
import OctetPattern.Proofs.Blindness
import OctetPattern.Proofs.Locality
import OctetPattern.Proofs.Readiness
import OctetPattern.Proofs.FanOut
import OctetPattern.Proofs.Quoting
import OctetPattern.Proofs.Turning
import OctetPattern.Proofs.Decoding
import OctetPattern.Proofs.Size
import OctetPattern.Proofs.Decimal
import OctetPattern.Proofs.ByteForms
import OctetPattern.Proofs.Transcript
