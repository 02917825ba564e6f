import OnceProxy.Envelope.Mask
import OnceProxy.Proofs.Cbor.Values

/-!
# Masks over written maps

To mask the bytes of a map is to write the map of the entries that the mask names.
-/

namespace OnceProxy.Envelope

open Cbor

/-- The key of an entry is a text in the mask. -/
def Named (mask : List String) (entry : Value × Value) : Prop :=
  ∃ name ∈ mask, entry.1 = .text name

lemma selects_iff {mask : List String} {entry : Value × Value} :
    selects mask entry = true ↔ Named mask entry := by
  obtain ⟨key, value⟩ := entry
  cases key <;> simp [selects, Named, Value.asText?]

instance (mask : List String) : DecidablePred (Named mask) := fun _ =>
  decidable_of_iff _ selects_iff

/-- A map is masked as it is written: the entries with a text of the mask for a key stay as they
are and in order, whatever the other keys and the values are and whatever stands after the map. -/
theorem maskCbor_encode (entries : List (Value × Value)) (mask : List String)
    (suffix : List UInt8) (within : (Value.map entries).Within depthLimit) :
    maskCbor ((Value.map entries).encode ++ suffix) mask =
        .ok (Value.map (entries.filter (Named mask))).encode ∧
      ∀ es : List (Value × Value), (Value.map es).encode =
        (Head.map (some es.length)).encode ++ es.flatMap fun e => e.1.encode ++ e.2.encode := by
  have read : Value.ofBytes ((Value.map entries).encode ++ suffix) = .ok (.map entries) := by
    rw [Value.ofBytes, Value.read_encode within 0 suffix]
    rfl
  have kept : entries.filter (selects mask) = entries.filter (Named mask) := by
    apply List.filter_congr
    intro e _
    rw [Bool.eq_iff_iff, selects_iff, decide_eq_true_iff]
  constructor
  · rw [maskCbor, read]
    simp only [Value.asMap?, Option.getD_some, kept]
  · intro es
    rw [Value.encode, encodeEntries_eq]
    rfl

/-- Entries with keys of several kinds, two of them with the same text. -/
def motley : List (Value × Value) :=
  [(.text "b", .tag 1 (.array [.integer (-18446744073709551616), .null])), (.integer 0, .bool true),
    (.text "a", .map [(.bytes [255], .text "b")]), (.array [.text "b"], .null),
    (.text "b", .integer 18446744073709551615)]

theorem maskCbor_encode_motley :
    (Value.map motley).Within depthLimit ∧
    maskCbor ((Value.map motley).encode ++ [255]) ["c", "b"] =
        .ok (Value.map [(.text "b", .tag 1 (.array [.integer (-18446744073709551616), .null])),
          (.text "b", .integer 18446744073709551615)]).encode ∧
      ∀ es : List (Value × Value), (Value.map es).encode =
        (Head.map (some es.length)).encode ++ es.flatMap fun e => e.1.encode ++ e.2.encode := by
  have within : (Value.map motley).Within depthLimit := by
    have text (d : Nat) : (Value.text "b").Within d := .text (by decide)
    have least (d : Nat) : (Value.integer (-18446744073709551616)).Within d :=
      .integer (by decide) (by decide)
    refine .map (by decide) ?_ ?_
    · simp only [motley, List.forall_mem_cons]
      refine ⟨text _, .integer (by decide) (by decide), .text (by decide), ?_, text _, nofun⟩
      exact .array (by decide) (List.forall_mem_singleton.mpr (text _))
    · simp only [motley, List.forall_mem_cons]
      refine ⟨?_, .bool, ?_, .null, .integer (by decide) (by decide), nofun⟩
      · refine .tag (by decide) (by decide) (by decide) (.array (by decide) ?_)
        exact List.forall_mem_cons.mpr ⟨least _, List.forall_mem_singleton.mpr .null⟩
      · refine .map (by decide) ?_ ?_
        · exact List.forall_mem_singleton.mpr (.bytes (by decide))
        · exact List.forall_mem_singleton.mpr (text _)
  have h := maskCbor_encode motley ["c", "b"] [255] within
  exact ⟨within, h⟩

end OnceProxy.Envelope
