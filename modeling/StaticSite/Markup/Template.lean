import StaticSite.Ordered
import StaticSite.Text.Search

/-!
# Templates

A slot is a name between two pairs of braces. Slots are filled one name after the other; the slots
for whole documents' worth of markup come last.
-/

namespace StaticSite.Markup

/-- The slots that are filled after all others, in this order. -/
def lateSlots : List String := ["head_content", "body", "scripts"]

def slot (name : String) : List Char :=
  '\x7b' :: '\x7b' :: (name.toList ++ ['\x7d', '\x7d'])

/-- Replaces every slot of a name by a text. -/
def fillSlot (text : List Char) (entry : String × String) : List Char :=
  Text.replace (slot entry.1) entry.2.toList text

/-- The order in which slots are filled. -/
def fillOrder (context : Ordered String) : List (String × String) :=
  context.filter (fun entry => !lateSlots.contains entry.1) ++
    lateSlots.filterMap fun name => (Ordered.get? context name).map (name, ·)

def fill (template : String) (context : Ordered String) : String :=
  String.ofList ((fillOrder context).foldl fillSlot template.toList)

end StaticSite.Markup
