/-!
# Tables

Lists of named entries in the order of their names.
-/

namespace OnceProxy.Table

variable {α : Type}

/-- Puts an entry in its place among entries in order of their names; one of the same name gives
way. -/
def insert (name : String) (v : α) : List (String × α) → List (String × α)
  | [] => [(name, v)]
  | (n, w) :: es =>
    if name = n then (name, v) :: es
    else if name < n then (name, v) :: (n, w) :: es
    else (n, w) :: insert name v es

/-- The entries of a list in order of their names. Of several with one name the last counts. -/
def ofList (l : List (String × α)) : List (String × α) :=
  l.foldl (fun es e => insert e.1 e.2 es) []

/-- The first entry of a name. -/
def get? (name : String) : List (String × α) → Option α
  | [] => none
  | (n, v) :: es => if n = name then some v else get? name es

theorem get?_insert (name key : String) (v : α) (es : List (String × α)) :
    get? key (insert name v es) = if key = name then some v else get? key es := by
  induction es with
  | nil => grind [insert, get?]
  | cons e es ih => grind [insert, get?]

end OnceProxy.Table
