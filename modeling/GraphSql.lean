import GraphSql.Json.Reader
import GraphSql.Options.Codec
import GraphSql.Proofs.Compounds.Widths
import GraphSql.Proofs.Compounds.Standalone
import GraphSql.Proofs.Equivalence.Collapse
import GraphSql.Proofs.Equivalence.SingleHop
import GraphSql.Proofs.Identifier
import GraphSql.Proofs.Isolation.Compiled
import GraphSql.Proofs.Matching
import GraphSql.Proofs.Membership
import GraphSql.Proofs.Naming.Lengths
import GraphSql.Proofs.Neighbours
import GraphSql.Proofs.Parameters.Patterns
import GraphSql.Proofs.Paths
import GraphSql.Proofs.Precedence
import GraphSql.Proofs.Pushdown
import GraphSql.Proofs.Pointer
import GraphSql.Proofs.Portability.Compile
import GraphSql.Proofs.RoundTrip
import GraphSql.Proofs.Spelling.Compile
import GraphSql.Proofs.Walks.Enumeration
import GraphSql.Proofs.Walks.Visited
