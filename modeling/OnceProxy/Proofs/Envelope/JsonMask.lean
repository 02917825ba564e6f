import OnceProxy.Envelope.Mask
import OnceProxy.Proofs.Json.Writing

/-!
# Masks over JSON bodies

A JSON body is masked by reading it, choosing the members that the mask names, and writing them
again. What is kept of a body without floats is read as just these members. Integers from `-2 ^ 63` up
to `2 ^ 64` keep their value in any body; those beyond are floats in between, and do not.
-/

namespace OnceProxy.Envelope

open Json

/-- Bodies are masked as JSON: the status is below 300, the mask has items, and the media type names
JSON. -/
structure MasksJson (e : Envelope) (mask : String) : Prop where
  status : e.status < 300
  items : Text.commaList mask ≠ []
  mime : "application/json".toList <:+: e.mime.toList

lemma occursIn_iff {part cs : List Char} : occursIn part cs = true ↔ part <:+: cs := by
  induction cs with
  | nil => simp [occursIn]
  | cons c cs ih =>
    rw [occursIn, Bool.or_eq_true, List.isPrefixOf_iff_prefix, ih, List.infix_cons_iff]

lemma MasksJson.withBody_eq {e : Envelope} {mask : String} (h : e.MasksJson mask)
    (body : List UInt8) :
    e.withBody body mask =
      (maskJson body (Text.commaList mask)).map fun kept => { e with body := kept } := by
  have status : ¬ (300 ≤ e.status ∨ Text.commaList mask = []) :=
    not_or.mpr ⟨UInt16.not_le.mpr h.status, h.items⟩
  rw [withBody, project, if_neg status, if_pos (occursIn_iff.mpr h.mime)]

/-! ### The members that are kept -/

section

variable {mask : List String} {members : List (String × Value)} {d : Nat}

/-- The members that are chosen, with that of one more name. -/
def choose (v : Value) (kept : List (String × Value)) (name : String) : List (String × Value) :=
  (v.member? name).elim kept (Table.insert name · kept)

lemma selectMembers_eq_foldl (mask : List String) (v : Value) :
    selectMembers mask v = mask.foldl (choose v) [] := by
  unfold selectMembers
  congr 1
  funext kept name
  rw [choose]
  cases v.member? name <;> rfl

lemma sorted_selectMembers (mask : List String) (v : Value) :
    Table.Sorted (selectMembers mask v) := by
  have fold (kept : List (String × Value)) (h : Table.Sorted kept) :
      Table.Sorted (mask.foldl (choose v) kept) := by
    induction mask generalizing kept with
    | nil => exact h
    | cons name mask ih =>
      refine ih _ ?_
      rw [choose]
      cases v.member? name with
      | none => exact h
      | some w => exact h.insert name w
  rw [selectMembers_eq_foldl]
  exact fold [] .nil

lemma get?_selectMembers (mask : List String) (members : List (String × Value)) (name : String) :
    Table.get? name (selectMembers mask (.object members)) =
      if name ∈ mask then Table.get? name members else none := by
  have fold (kept : List (String × Value)) :
      Table.get? name (mask.foldl (choose (.object members)) kept) =
      if name ∈ mask then (Table.get? name members).or (Table.get? name kept)
      else Table.get? name kept := by
    induction mask generalizing kept with
    | nil => rfl
    | cons other mask ih =>
      rw [List.foldl_cons, ih, choose]
      have hmember : (Value.object members).member? other = Table.get? other members := rfl
      rw [hmember]
      by_cases hn : name = other
      · subst hn
        cases hget : Table.get? name members with
        | none => simp
        | some w => simp [Table.get?_insert]
      · cases Table.get? other members with
        | none => simp [hn]
        | some w => simp [hn, Table.get?_insert]
  rw [selectMembers_eq_foldl, fold, Table.get?, Option.or_none]

/-- The members that are chosen are those that the mask names. -/
lemma selectMembers_eq (h : Table.Sorted members) :
    selectMembers mask (.object members) = members.filter (·.1 ∈ mask) :=
  (sorted_selectMembers mask _).ext (h.filter _) fun name => by
    rw [get?_selectMembers, Table.get?_filter fun name => decide (name ∈ mask)]
    simp only [decide_eq_true_eq]

lemma within_filter (h : (Value.object members).Within d) (mask : List String) :
    (Value.object (members.filter (·.1 ∈ mask))).Within d := by
  cases h with
  | object hs hms =>
    exact .object (hs.filter _) fun m hm => hms m (List.mem_of_mem_filter hm)

lemma integral_filter (h : (Value.object members).Integral) (mask : List String) :
    (Value.object (members.filter (·.1 ∈ mask))).Integral := by
  cases h with
  | object h => exact .object fun m hm => h m (List.mem_of_mem_filter hm)

lemma Within.sorted (h : (Value.object members).Within d) : Table.Sorted members := by
  cases h with
  | object hs _ => exact hs

/-- A body that is read as an object is masked to the members that the mask names. -/
lemma maskJson_of_read {body : List UInt8} (h : Value.ofBytes body = .ok (.object members))
    (mask : List String) :
    (Value.object members).Within depthLimit ∧
      maskJson body mask = .ok (Value.object (members.filter (·.1 ∈ mask))).encode := by
  obtain ⟨t, -, -, hw⟩ := text_of_read h
  refine ⟨hw, ?_⟩
  rw [maskJson, h, ← selectMembers_eq (Within.sorted hw)]

end

/-- What is kept of a body that is read as an object without floats: bytes that are read as just the
members that the mask names, with the value of the last member of each name in the body. To mask them
again changes nothing, and nothing else of the body makes a difference to them. -/
theorem withBody_json {e : Envelope} {mask : String} {body : List UInt8}
    {members : List (String × Value)} (masks : e.MasksJson mask)
    (read : Value.ofBytes body = .ok (.object members))
    (integral : (Value.object members).Integral) :
    ∃ kept : Envelope, e.withBody body mask = .ok kept ∧ kept = { e with body := kept.body } ∧
      Value.ofBytes kept.body =
        .ok (.object (members.filter (·.1 ∈ Text.commaList mask))) ∧
      (∃ raw, (Tree.object raw).Text body ∧ ∀ name ∈ Text.commaList mask,
        Option.Rel (Tree.Says Literal.Reads) (Table.get? name raw.reverse)
          (Table.get? name (members.filter (·.1 ∈ Text.commaList mask)))) ∧
      kept.withBody kept.body mask = .ok kept ∧
      ∀ other others, Value.ofBytes other = .ok (.object others) →
        (∀ name ∈ Text.commaList mask, Table.get? name others = Table.get? name members) →
        e.withBody other mask = .ok kept := by
  obtain ⟨within, stored⟩ := maskJson_of_read read (Text.commaList mask)
  let kept := members.filter (·.1 ∈ Text.commaList mask)
  have readBack : Value.ofBytes (Value.object kept).encode = .ok (.object kept) :=
    ofBytes_encode (within_filter within _) (integral_filter integral _)
  -- what is left depends on the members that the mask names, not on the body they come from
  have masked {body : List UInt8} {members : List (String × Value)}
      (read : Value.ofBytes body = .ok (.object members))
      (same : members.filter (·.1 ∈ Text.commaList mask) = kept) (e : Envelope)
      (masks : e.MasksJson mask) :
      e.withBody body mask = .ok { e with body := (Value.object kept).encode } := by
    rw [masks.withBody_eq, (maskJson_of_read read _).2, same]
    rfl
  refine ⟨_, masked read rfl e masks, rfl, readBack, ?_, ?_, ?_⟩
  · obtain ⟨t, spelled, said, -⟩ := text_of_read read
    cases said with
    | @object raw ms names said =>
      refine ⟨raw, spelled, fun name hname => ?_⟩
      rw [Table.get?_filter fun name => decide (name ∈ Text.commaList mask),
        if_pos (decide_eq_true hname), Table.get?_ofList]
      exact rel_get? (List.rel_reverse (forall₂_members.mp ⟨names, said⟩)) name
    | number h => cases h
  · refine masked readBack ?_ _ ⟨masks.status, masks.items, masks.mime⟩
    exact List.filter_eq_self.mpr fun m hm => (List.mem_filter.mp hm).2
  · intro other others readOther agree
    refine masked readOther ?_ e masks
    obtain ⟨withinOther, -⟩ := maskJson_of_read readOther (Text.commaList mask)
    -- both are sorted, so it is enough that they agree name by name
    refine ((Within.sorted withinOther).filter _).ext ((Within.sorted within).filter _) fun name => ?_
    rw [Table.get?_filter fun name => decide (name ∈ Text.commaList mask),
      Table.get?_filter fun name => decide (name ∈ Text.commaList mask)]
    split
    · rename_i hname
      exact agree name (of_decide_eq_true hname)
    · rfl

/-- An answer with a JSON body. -/
def courier : Envelope := ⟨201, [], [], "application/json; charset=utf-8"⟩

/-- Members, two of them of one name. -/
def delivery : List (String × Value) :=
  [("b", .array [.integer 1]), ("c", .integer 0), ("a", .string "😀\n"),
    ("b", .object [("k", .array [.integer 18446744073709551615, .null])])]

/-- The members that count, in the order of their names. -/
def stock : List (String × Value) :=
  [("a", .string "😀\n"), ("b", .object [("k", .array [.integer 18446744073709551615, .null])]),
    ("c", .integer 0)]

theorem withBody_json_delivery :
    courier.MasksJson " b , a," ∧
    Value.ofBytes (Value.object delivery).encode = .ok (.object stock) ∧
    (Value.object stock).Integral ∧
    ∃ kept : Envelope, courier.withBody (Value.object delivery).encode " b , a," = .ok kept ∧
      kept = { courier with body := kept.body } ∧
      Value.ofBytes kept.body = .ok (.object (stock.take 2)) ∧
      (∃ raw, (Tree.object raw).Text (Value.object delivery).encode ∧
        ∀ name ∈ Text.commaList " b , a,",
          Option.Rel (Tree.Says Literal.Reads) (Table.get? name raw.reverse)
            (Table.get? name (stock.take 2))) ∧
      kept.withBody kept.body " b , a," = .ok kept ∧
      ∀ other others, Value.ofBytes other = .ok (.object others) →
        (∀ name ∈ Text.commaList " b , a,", Table.get? name others = Table.get? name stock) →
        courier.withBody other " b , a," = .ok kept := by
  have items : Text.commaList " b , a," = ["b", "a"] := by decide
  have masks : courier.MasksJson " b , a," :=
    ⟨by decide, by rw [items]; nofun, ⟨[], "; charset=utf-8".toList, by decide⟩⟩
  have largest (d : Nat) : ∀ v ∈ [Value.integer 18446744073709551615, .null],
      v.Within d ∧ v.Integral := by
    simp only [List.forall_mem_cons]
    exact ⟨⟨.integer ⟨by decide, by decide⟩, .integer⟩, ⟨.null, .null⟩, nofun⟩
  have inner : (Value.object [("k", .array [.integer 18446744073709551615, .null])]).Integral :=
    .object (List.forall_mem_singleton.mpr (.array fun v hv => (largest 0 v hv).2))
  have read : Value.ofBytes (Value.object delivery).encode = .ok (.object stock) := by
    refine ofBytes_encode_object ?_
    simp only [delivery, List.forall_mem_cons]
    refine ⟨⟨.array ?_, .array ?_⟩, ⟨.integer ⟨by decide, by decide⟩, .integer⟩, ⟨.string, .string⟩,
      ⟨.object (List.pairwise_singleton ..) ?_, inner⟩, nofun⟩
    · exact List.forall_mem_singleton.mpr (.integer ⟨by decide, by decide⟩)
    · exact List.forall_mem_singleton.mpr .integer
    · exact List.forall_mem_singleton.mpr (.array fun v hv => (largest _ v hv).1)
  have integral : (Value.object stock).Integral := by
    refine .object ?_
    simp only [stock, List.forall_mem_cons]
    exact ⟨.string, inner, .integer, nofun⟩
  have chosen : stock.filter (·.1 ∈ Text.commaList " b , a,") = stock.take 2 := by
    rw [items]
    rfl
  have h := withBody_json masks read integral
  rw [chosen] at h
  exact ⟨masks, read, integral, h⟩

/-! ### Integers -/

lemma atomic_reads : Atomic Literal.Reads := by
  rintro l v s h
  cases h <;> rfl

lemma atomic_shows : Atomic Literal.Shows := by
  rintro l v s h
  cases h <;> rfl

/-- An integer in range is written with the value that it was read with. -/
lemma value_eq_of_shows {l l' : Literal} {v : Value} (hl : l.IsInteger) (hr : InRange l.integer)
    (read : l.Reads v) (shown : l'.Shows v) : l'.value = l.value := by
  cases read with
  | integer =>
    cases shown with
    | integer hl' heq => rw [hl'.value_eq, hl.value_eq, heq]
  | minusZero _ _ hz =>
    cases shown with
    | float hx => rw [hx (by decide), hl.value_eq, hz, Int.cast_zero]
  | float hn => exact absurd ⟨hl, hr⟩ hn

lemma inRange_of_value {l : Literal} (hl : l.IsInteger) (low : -2 ^ 63 ≤ l.value)
    (high : l.value < 2 ^ 64) : InRange l.integer := by
  rw [hl.value_eq] at low high
  constructor
  · exact_mod_cast low
  · exact_mod_cast high

/-- Only a number says what a number is read as. -/
lemma number_of_shows {l : Literal} {u : Tree} {v : Value} (read : l.Reads v)
    (said : u.Says Literal.Shows v) : ∃ l', u = .number l' ∧ l'.Shows v := by
  cases said with
  | number h => exact ⟨_, rfl, h⟩
  | _ => cases read

lemma object_of_shows {t : Tree} {members : List (String × Value)}
    (shown : t.Says Literal.Shows (.object members)) : ∃ raw, t = .object raw := by
  cases shown with
  | number h => cases h
  | object => exact ⟨_, rfl⟩

/-- A body that spells an object is read as one, if it is stored. -/
lemma read_of_stored {e kept : Envelope} {mask : String} {body : List UInt8}
    {raw : List (String × Tree)} (masks : e.MasksJson mask) (spelled : (Tree.object raw).Text body)
    (stored : e.withBody body mask = .ok kept) :
    ∃ members, (Tree.object raw).Says Literal.Reads (.object members) ∧
      Value.ofBytes body = .ok (.object members) := by
  rw [masks.withBody_eq] at stored
  obtain ⟨bytes, stored, -⟩ := ok_of_map stored
  cases read : Value.ofBytes body with
  | error fault =>
    rw [maskJson, read] at stored
    cases stored
  | ok v =>
    obtain ⟨t, spelled', said, -⟩ := text_of_read read
    obtain rfl := spelled.unique spelled'
    cases said with
    | object names said => exact ⟨_, .object names said, rfl⟩

lemma get?_filter_members {mask : List String} {name : String} (h : name ∈ mask)
    (members : List (String × Value)) (path : List Step) :
    (Value.object (members.filter (·.1 ∈ mask))).get? (.member name :: path) =
      (Value.object members).get? (.member name :: path) := by
  have child : (Value.object (members.filter (·.1 ∈ mask))).child? (.member name) =
      (Value.object members).child? (.member name) := by
    rw [Value.child?, Table.get?_filter fun name => decide (name ∈ mask),
      if_pos (decide_eq_true h)]
    rfl
  rw [Value.get?, Value.get?, List.foldlM_cons, List.foldlM_cons, child]

/-- Every integer from `-2 ^ 63` up to `2 ^ 64` that stands anywhere in a member that is kept is
stored as a number of the same value. -/
theorem withBody_keeps_integers {e kept : Envelope} {mask : String} {body : List UInt8}
    {raw : List (String × Tree)} (masks : e.MasksJson mask) (spelled : (Tree.object raw).Text body)
    (stored : e.withBody body mask = .ok kept) :
    ∃ raw', (Tree.object raw').Text kept.body ∧
      ∀ name ∈ Text.commaList mask, ∀ (path : List Step) (l : Literal),
        (Tree.object raw).get? (.member name :: path) = some (.number l) →
        l.IsInteger → -2 ^ 63 ≤ l.value → l.value < 2 ^ 64 →
        ∃ l', (Tree.object raw').get? (.member name :: path) = some (.number l') ∧
          l'.value = l.value := by
  obtain ⟨members, said, read⟩ := read_of_stored masks spelled stored
  obtain ⟨within, masked⟩ := maskJson_of_read read (Text.commaList mask)
  rw [masks.withBody_eq, masked] at stored
  cases stored
  obtain ⟨t, shown, written⟩ := Value.spelled (within_filter within (Text.commaList mask))
  have text : t.Text (Value.object (members.filter (·.1 ∈ Text.commaList mask))).encode := by
    have := written [] halts_nil
    rw [List.append_nil] at this
    exact ⟨[], this, rfl⟩
  obtain ⟨raw', rfl⟩ := object_of_shows shown
  refine ⟨raw', text, fun name hname path l hl integer low high => ?_⟩
  have before := said.get? atomic_reads (.member name :: path)
  have after := shown.get? atomic_shows (.member name :: path)
  rw [get?_filter_members hname] at after
  rw [hl] at before
  generalize (Value.object members).get? (.member name :: path) = found at before after
  cases before with
  | some said =>
    cases said with
    | number read =>
      generalize (Tree.object raw').get? (.member name :: path) = part at after
      cases after with
      | some shown =>
        obtain ⟨l', rfl, written⟩ := number_of_shows read shown
        exact ⟨l', rfl, value_eq_of_shows integer (inRange_of_value integer low high) read written⟩

/-- Zero with a sign. -/
def minusZero : Literal where
  negative := true
  whole := [48]
  fraction := []
  exponent := none
  isDigit_whole := List.forall_mem_singleton.mpr rfl
  whole_ne_nil := List.cons_ne_nil _ _
  eq_zero_of_leading _ := rfl
  isDigit_fraction := nofun

/-- The least and the greatest integer that keep their value, and zero with a sign. -/
def extremes : List (String × Tree) :=
  [("n", .array [.number (.ofInt (-9223372036854775808)), .number (.ofInt 18446744073709551615),
    .number minusZero])]

/-- The bytes before the value of a member `n`. -/
def opening : List UInt8 := [123, 34, 110, 34, 58]

/-- The text of the extremes. -/
def extremesBody : List UInt8 :=
  opening ++ 91 :: ((Literal.ofInt (-9223372036854775808)).text ++ 44 :: 32 ::
    ((Literal.ofInt 18446744073709551615).text ++ 44 :: (minusZero.text ++ [93, 125])))

/-- The extremes as they are stored. -/
def extremesKept : List UInt8 :=
  Text.Utf8.ofString "\x7b\"n\":[-9223372036854775808,18446744073709551615,-0.0]\x7d"

/-- An object with one member `n`. -/
lemma text_opening {t : Tree} {s : List UInt8} (h : Spells t s [125]) :
    (Tree.object [("n", t)]).Text (opening ++ s) := by
  have name (r : List UInt8) : Quoted ['n'] (110 :: 34 :: r) r :=
    .plain (c := 'n') (s := 34 :: r) ⟨by decide, by decide, by decide⟩ .close
  exact ⟨[], .object rfl (.first (.mk rfl (name _) rfl h) (.close rfl)), rfl⟩

lemma spells_number (l : Literal) {b : UInt8} {r : List UInt8} (hd : isDigit b = false)
    (hm : isMark b = false) (hp : (b == 46) = false) :
    Spells (.number l) (l.text ++ b :: r) (b :: r) :=
  .number (l.dropWhile_text _) (halts_cons hd hm hp l)

lemma text_extremes : (Tree.object extremes).Text extremesBody := by
  refine text_opening (.array rfl (.first (spells_number _ rfl rfl rfl) ?_))
  refine .next rfl (.of_blanks (spells_number (.ofInt 18446744073709551615) rfl rfl rfl)) ?_
  exact .next rfl (spells_number _ rfl rfl rfl) (.close rfl)

theorem withBody_keeps_integers_extremes :
    courier.MasksJson "n" ∧ (Tree.object extremes).Text extremesBody ∧
    ∃ kept : Envelope, courier.withBody extremesBody "n" = .ok kept ∧
      kept.body = extremesKept ∧
      ∃ raw', (Tree.object raw').Text kept.body ∧
      (∃ l, (Tree.object raw').get? [.member "n", .element 0] = some (.number l) ∧
        l.value = -9223372036854775808) ∧
      (∃ l, (Tree.object raw').get? [.member "n", .element 1] = some (.number l) ∧
        l.value = 18446744073709551615) ∧
      ∃ l, (Tree.object raw').get? [.member "n", .element 2] = some (.number l) ∧
        l.value = 0 := by
  have items : Text.commaList "n" = ["n"] := by decide
  have masks : courier.MasksJson "n" :=
    ⟨by decide, by rw [items]; nofun, ⟨[], "; charset=utf-8".toList, by decide⟩⟩
  have stored : courier.withBody extremesBody "n" =
      .ok { courier with body := extremesKept } := by decide +kernel
  obtain ⟨raw', text, keeps⟩ := withBody_keeps_integers masks text_extremes stored
  have named : "n" ∈ Text.commaList "n" := by
    rw [items]
    exact List.mem_singleton_self _
  have value (n : ℤ) : (Literal.ofInt n).value = n := by
    rw [(Literal.isInteger_ofInt n).value_eq, Literal.integer_ofInt]
  have zero : minusZero.value = 0 := by
    rw [Literal.IsInteger.value_eq ⟨rfl, rfl⟩]
    rfl
  refine ⟨masks, text_extremes, _, stored, rfl, raw', text, ?_, ?_, ?_⟩
  · obtain ⟨l, hl, hv⟩ := keeps "n" named [.element 0] (.ofInt (-9223372036854775808)) rfl
      (Literal.isInteger_ofInt _) (by rw [value]; norm_num) (by rw [value]; norm_num)
    exact ⟨l, hl, by rw [hv, value]; norm_num⟩
  · obtain ⟨l, hl, hv⟩ := keeps "n" named [.element 1] (.ofInt 18446744073709551615) rfl
      (Literal.isInteger_ofInt _) (by rw [value]; norm_num) (by rw [value]; norm_num)
    exact ⟨l, hl, by rw [hv, value]; norm_num⟩
  · obtain ⟨l, hl, hv⟩ := keeps "n" named [.element 2] minusZero rfl ⟨rfl, rfl⟩
      (by rw [zero]; norm_num) (by rw [zero]; norm_num)
    exact ⟨l, hl, by rw [hv, zero]⟩

/-- The least integer above all that keep their value. -/
def excess : Literal := .ofInt 18446744073709551616

/-- What is stored for it. -/
def rounded : Literal :=
  .ofChars false (Nat.toDigits 10 1) (Nat.toDigits 10 8446744073709552) (some (.ofInt 19))
    (isDigit_toDigits _) Nat.toDigits_ne_nil eq_zero_of_head?_toDigits (isDigit_toDigits _)

/-- A greater integer is stored with another value. -/
theorem withBody_changes_excess :
    courier.MasksJson "n" ∧ "n" ∈ Text.commaList "n" ∧ excess.IsInteger ∧
    excess.value = 18446744073709551616 ∧
    (Tree.object [("n", .number excess)]).Text (opening ++ (excess.text ++ [125])) ∧
    ∃ kept : Envelope, courier.withBody (opening ++ (excess.text ++ [125])) "n" = .ok kept ∧
      (Tree.object [("n", .number rounded)]).Text kept.body ∧
      ∀ t : Tree, t.Text kept.body →
        ∃ l, t.get? [.member "n"] = some (.number l) ∧ l.value = 18446744073709552000 := by
  have items : Text.commaList "n" = ["n"] := by decide
  have masks : courier.MasksJson "n" :=
    ⟨by decide, by rw [items]; nofun, ⟨[], "; charset=utf-8".toList, by decide⟩⟩
  have integer : excess.IsInteger := Literal.isInteger_ofInt _
  have value : excess.value = 18446744073709551616 := by
    rw [integer.value_eq, excess, Literal.integer_ofInt]
    norm_num
  have roundedValue : rounded.value = 18446744073709552000 := by
    have digits : ofDigits (rounded.whole ++ rounded.fraction) = 18446744073709552 := by
      decide +kernel
    have exponent : rounded.exponent.elim 0 Exponent.value = 19 := by decide +kernel
    have places : rounded.fraction.length = 16 := by decide +kernel
    have sign : rounded.negative = false := rfl
    rw [Literal.value, digits, exponent, places, sign]
    norm_num
  have stored : courier.withBody (opening ++ (excess.text ++ [125])) "n" =
      .ok { courier with body := opening ++ (rounded.text ++ [125]) } := by decide +kernel
  have text : (Tree.object [("n", .number rounded)]).Text (opening ++ (rounded.text ++ [125])) :=
    text_opening (spells_number rounded rfl rfl rfl)
  refine ⟨masks, by rw [items]; exact List.mem_singleton_self _, integer, value,
    text_opening (spells_number excess rfl rfl rfl), _, stored, text, fun t ht => ?_⟩
  rw [ht.unique text]
  exact ⟨rounded, rfl, roundedValue⟩

end OnceProxy.Envelope
