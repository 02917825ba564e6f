import OnceProxy.Text.Utf8

/-!
# Headers

Names and values are legal by their types. The values of one name stand together, at the place where
the name came first.
-/

namespace OnceProxy.Http

/-- A lower-case character that may stand in a header name. -/
def isNameChar (c : Char) : Bool :=
  c.isDigit || c.isLower || "!#$%&'*+-.^_`|~".toList.contains c

/-- The longest header name has so many characters. -/
def maxNameLength : Nat := 65535

/-- A legal header name in lower case. -/
def isName (s : String) : Bool :=
  !s.isEmpty && s.length ≤ maxNameLength && s.toList.all isNameChar

/-- The name of a header, in lower case. -/
structure HeaderName where
  text : String
  legal : isName text = true
  deriving DecidableEq

/-- Reads a header name; letters of either case are the same. -/
def HeaderName.ofString? (s : String) : Option HeaderName :=
  let lower := String.ofList (s.toList.map Char.toLower)
  if h : isName lower = true then some ⟨lower, h⟩ else none

/-- A byte that may stand in a header value. -/
def isValueByte (b : UInt8) : Bool :=
  (32 ≤ b && b != 127) || b == 9

/-- The value of a header. -/
structure HeaderValue where
  bytes : List UInt8
  legal : bytes.all isValueByte = true
  deriving DecidableEq

namespace HeaderValue

/-- Reads the bytes of a header value. -/
def ofBytes? (s : List UInt8) : Option HeaderValue :=
  if h : s.all isValueByte = true then some ⟨s, h⟩ else none

/-- Reads a header value from the bytes of a text. -/
def ofString? (s : String) : Option HeaderValue :=
  ofBytes? (Text.Utf8.ofString s)

/-- A visible character, a space or a tab. -/
def isTextByte (b : UInt8) : Bool :=
  (32 ≤ b && b < 127) || b == 9

/-- The text of a value that holds nothing but ASCII. -/
def toString? (v : HeaderValue) : Option String :=
  if v.bytes.all isTextByte then
    some (String.ofList (v.bytes.map fun b => Char.ofNat b.toNat))
  else none

end HeaderValue

/-- The values of one name, in the order in which they came; there is at least one. -/
structure HeaderGroup where
  name : HeaderName
  first : HeaderValue
  more : List HeaderValue
  deriving DecidableEq

/-- The values of a group. -/
def HeaderGroup.values (g : HeaderGroup) : List HeaderValue :=
  g.first :: g.more

/-- Headers. All values of a name stand together, at the place where the name came first. -/
structure HeaderMap where
  groups : List HeaderGroup
  distinct : (groups.map (·.name)).Nodup
  deriving DecidableEq

namespace HeaderMap

/-- No headers. -/
def empty : HeaderMap := ⟨[], by simp⟩

/-- All headers in order, one pair for each value. -/
def toList (m : HeaderMap) : List (HeaderName × HeaderValue) :=
  m.groups.flatMap fun g => g.values.map (g.name, ·)

/-- The values of a name. -/
def values (m : HeaderMap) (name : HeaderName) : List HeaderValue :=
  match m.groups.find? (·.name = name) with
  | some g => g.values
  | none => []

/-- The first value of a name. -/
def get? (m : HeaderMap) (name : HeaderName) : Option HeaderValue :=
  (m.values name).head?

/-- Changes the group of a name; a name that is new gets a group at the end. -/
def alter (name : HeaderName) (change : HeaderGroup → HeaderGroup) (new : HeaderGroup) :
    List HeaderGroup → List HeaderGroup
  | [] => [new]
  | g :: gs => if g.name = name then change g :: gs else g :: alter name change new gs

theorem map_name_alter {name : HeaderName} {change : HeaderGroup → HeaderGroup}
    {new : HeaderGroup} (hc : ∀ g, (change g).name = g.name) (hn : new.name = name)
    (gs : List HeaderGroup) :
    (alter name change new gs).map (·.name) =
      if name ∈ gs.map (·.name) then gs.map (·.name) else gs.map (·.name) ++ [name] := by
  induction gs with
  | nil => simp [alter, hn]
  | cons g gs ih =>
    simp only [alter]
    split
    · rename_i h
      simp [hc, h]
    · rename_i h
      have h' : ¬ name = g.name := fun e => h e.symm
      simp only [List.map_cons, ih, List.mem_cons, h', false_or]
      split <;> simp

theorem nodup_alter {name : HeaderName} {change : HeaderGroup → HeaderGroup}
    {new : HeaderGroup} (hc : ∀ g, (change g).name = g.name) (hn : new.name = name)
    {gs : List HeaderGroup} (h : (gs.map (·.name)).Nodup) :
    ((alter name change new gs).map (·.name)).Nodup := by
  rw [map_name_alter hc hn]
  split
  · exact h
  · rename_i hm
    rw [List.nodup_append]
    refine ⟨h, by simp, ?_⟩
    intro a ha b hb
    rw [List.mem_singleton] at hb
    subst hb
    exact fun e => hm (e ▸ ha)

/-- Adds a value after those that its name has. -/
def append (m : HeaderMap) (name : HeaderName) (value : HeaderValue) : HeaderMap :=
  ⟨alter name (fun g => { g with more := g.more ++ [value] }) ⟨name, value, []⟩ m.groups,
    by refine nodup_alter (fun g => ?_) ?_ m.distinct <;> rfl⟩

/-- Replaces all values of a name by one. -/
def insert (m : HeaderMap) (name : HeaderName) (value : HeaderValue) : HeaderMap :=
  ⟨alter name (fun g => { g with first := value, more := [] }) ⟨name, value, []⟩ m.groups,
    by refine nodup_alter (fun g => ?_) ?_ m.distinct <;> rfl⟩

/-- The headers of a list, added one after the other. -/
def ofList (l : List (HeaderName × HeaderValue)) : HeaderMap :=
  l.foldl (fun m (n, v) => m.append n v) empty

/-- The text of the first value of a name, if there is one and it is text. -/
def text? (m : HeaderMap) (name : HeaderName) : Option String :=
  (m.get? name).bind HeaderValue.toString?

end HeaderMap

/-! ### Room for names

Maps that take their names from another map, and but a few more, have room for them. Where names
come from elsewhere there may be too many. -/

/-- When a map has no room left, not even for another value of a name that it has. It spreads its
names over a table of 2^15 places, and is full when three quarters of these are taken. It is full
earlier if many names fall on the same places, but never before a fifth of the places are taken. -/
structure HeaderLimit where
  isFull : HeaderMap → Bool
  roomy : ∀ m, m.groups.length < 6554 → isFull m = false
  full : ∀ m, 24576 ≤ m.groups.length → isFull m = true

/-- The limit where the names fall evenly on the places. -/
def HeaderLimit.even : HeaderLimit where
  isFull m := 24576 ≤ m.groups.length
  roomy m h := decide_eq_false (by omega)
  full m h := decide_eq_true h

/-- Changes a map that a value is to be put into, if it has room. -/
def HeaderMap.ifRoom (limit : HeaderLimit) (m : HeaderMap) (change : HeaderMap → HeaderMap) :
    Option HeaderMap :=
  if limit.isFull m then none else some (change m)

/-! ### Names -/

/-- The media type of a body. -/
def contentType : HeaderName := ⟨"content-type", by decide⟩

/-- The length of a body. -/
def contentLength : HeaderName := ⟨"content-length", by decide⟩

/-- The methods that a path answers to. -/
def allow : HeaderName := ⟨"allow", by decide⟩

end OnceProxy.Http
