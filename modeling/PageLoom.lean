import PageLoom.Main
import PageLoom.Css.Balance
import PageLoom.Proofs.Css.Scan
import PageLoom.Proofs.Css.Reading
import PageLoom.Proofs.Css.Members
import PageLoom.Proofs.Css.Pieces
import PageLoom.Proofs.Css.Items
import PageLoom.Proofs.Css.ScopedRule
import PageLoom.Proofs.Css.Confinement
import PageLoom.Proofs.Css.Grammar
import PageLoom.Proofs.Css.Tree
import PageLoom.Proofs.Page.Collection
import PageLoom.Proofs.Page.Visits
import PageLoom.Proofs.Page.Reuse
import PageLoom.Proofs.Page.Slices
import PageLoom.Proofs.Page.Generated
import PageLoom.Proofs.Content.Markup
import PageLoom.Proofs.Content.Leftmost
import PageLoom.Proofs.Logic.Guard
import PageLoom.Proofs.Logic.Brace
import PageLoom.Proofs.Content.Origin
import PageLoom.Proofs.Shortcode.Wrapper
import PageLoom.Proofs.Shortcode.Scan
import PageLoom.Proofs.Condition.Strict
import PageLoom.Proofs.Condition.Negation
import PageLoom.Proofs.Assoc
import PageLoom.Proofs.Site.Store
import PageLoom.Proofs.Site.Resolution
import PageLoom.Proofs.Json.Ordered
import PageLoom.Proofs.Page.Pruning
import PageLoom.Proofs.Json.Printed
import PageLoom.Proofs.Document.Replacement
import PageLoom.Proofs.Entity.Encoding
import PageLoom.Proofs.Condition.Settled
import PageLoom.Proofs.Entity.Settled
import PageLoom.Proofs.Site.Saved
import PageLoom.Proofs.Asset.Calls
import PageLoom.Proofs.Asset.Merged
import PageLoom.Proofs.Site.History
import PageLoom.Proofs.Command.Agreement
import PageLoom.Proofs.Css.Soundness
import PageLoom.Proofs.Css.Substance
import PageLoom.Proofs.Css.Firm
import PageLoom.Proofs.Css.WellNested
import PageLoom.Proofs.Css.Colons
import PageLoom.Proofs.Css.Segmentation
import PageLoom.Proofs.Css.Junctions
import PageLoom.Proofs.Html.Address
import PageLoom.Proofs.Content.Queried
import PageLoom.Proofs.Content.Shortened
import PageLoom.Proofs.Html.Query
import PageLoom.Proofs.Calendar.RoundTrip
import PageLoom.Proofs.Shortcode.Attributes
import PageLoom.Proofs.Entity.References
import PageLoom.Proofs.Condition.Layers
import PageLoom.Proofs.Css.Boundaries
