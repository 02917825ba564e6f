import Mathlib.Data.List.Nodup
import OnceProxy.Proofs.Cbor.ReadBack
import OnceProxy.Proofs.Store.Operations
import OnceProxy.Store.Backend

/-!
# Shared records

What is read at an address after a record was put there or taken away. Every operation has one of
seven effects on the records, and each of them concerns the address of its key only.
-/

namespace OnceProxy

/-- Does an operation. -/
def Backend.operate {σ : Type} (b : Backend σ) (s : σ) (now : Nat) (key : IdempotencyKey) :
    Operation → Outcome × σ
  | .tryAcquire => (.acquired (b.tryAcquire s now key).1, (b.tryAcquire s now key).2)
  | .peek => (.found (b.peek s now key), s)
  | .store lease e => (.stored (b.store s now key lease e).1, (b.store s now key lease e).2)
  | .release lease => (.released, b.release s now key lease)

/-- The lease with which an operation is called. -/
def Operation.lease? : Operation → Option Lease
  | store lease _ => some lease
  | release lease => some lease
  | _ => none

/-- Whether an operation is to acquire a key. -/
def Operation.isAttempt : Operation → Bool
  | tryAcquire => true
  | _ => false

namespace RecordStore

/-! ### What records say -/

/-- A record that names a lease names no other one. -/
lemma pendingRecord_inj {lease lease' : Lease} :
    pendingRecord lease = pendingRecord lease' ↔ lease = lease' := by
  constructor
  · intro h
    have hid := congrArg Bytes.ofBigEndian (List.cons.inj h).2
    simp only [Bytes.ofBigEndian_bigEndian] at hid
    have hlt := lease.id.toNat_lt
    have hlt' := lease'.id.toNat_lt
    rw [Nat.mod_eq_of_lt (by omega), Nat.mod_eq_of_lt (by omega)] at hid
    exact congrArg Lease.mk (UInt64.toNat_inj.mp hid)
  · rintro rfl
    rfl

/-- The record of an answer does not look as if somebody were at work. -/
lemma head?_encode (e : Envelope) : e.encode.head? ≠ some pendingTag := by
  have hmap : (Cbor.Head.map (some 4)).encode = [0xa4] := by decide
  simp only [Envelope.encode, hmap, List.append_assoc, List.cons_append, List.head?_cons]
  decide

lemma encode_ne_pendingRecord (e : Envelope) (lease : Lease) : e.encode ≠ pendingRecord lease := by
  intro h
  apply head?_encode e
  rw [h]
  rfl

variable {r : RecordStore} {now later : Nat} {address a : String} {bytes : List UInt8} {x : Record}
  {key : IdempotencyKey} {lease : Lease}

/-! ### Addresses -/

/-- The record at an address, if it has not expired. -/
def record? (r : RecordStore) (now : Nat) (address : String) : Option Record :=
  r.records.find? fun x => x.address = address && now < x.expires

lemma read?_eq (r : RecordStore) (now : Nat) (address : String) :
    r.read? now address = (r.record? now address).map (·.bytes) := rfl

/-- A lease holds an address if the record there names it. -/
def Holds (r : RecordStore) (now : Nat) (address : String) (lease : Lease) : Prop :=
  r.read? now address = some (pendingRecord lease)

/-- No address has two records. -/
def Tidy (r : RecordStore) : Prop :=
  (r.records.map (·.address)).Nodup

lemma of_record? (h : r.record? now address = some x) :
    x ∈ r.records ∧ x.address = address ∧ now < x.expires := by
  refine ⟨List.mem_of_find?_eq_some h, ?_⟩
  simpa using List.find?_some h

lemma Tidy.record?_eq_some (h : r.Tidy) :
    r.record? now address = some x ↔ x ∈ r.records ∧ x.address = address ∧ now < x.expires := by
  constructor
  · exact of_record?
  · rintro ⟨hx, rfl, hlt⟩
    cases hy : r.record? now x.address with
    | none => simpa [hlt] using List.find?_eq_none.mp hy x hx
    | some y =>
      obtain ⟨hm, ha, -⟩ := of_record? hy
      rw [List.inj_on_of_nodup_map h hm hx ha]

/-- A record stays until it expires, if nothing is done at its address. -/
lemma Tidy.record?_later (h : r.Tidy) (le : now ≤ later) :
    r.record? later address = (r.record? now address).filter (later < ·.expires) := by
  ext x
  rw [Option.filter_eq_some_iff, h.record?_eq_some, h.record?_eq_some, decide_eq_true_eq]
  constructor
  · rintro ⟨hx, ha, hlt⟩
    exact ⟨⟨hx, ha, Nat.lt_of_le_of_lt le hlt⟩, hlt⟩
  · rintro ⟨⟨hx, ha, -⟩, hlt⟩
    exact ⟨hx, ha, hlt⟩

@[simp] lemma record?_draw (r : RecordStore) (now : Nat) (address : String) :
    r.draw.2.record? now address = r.record? now address := rfl

lemma record?_remove_self : (r.remove address).record? now address = none := by
  rw [record?, List.find?_eq_none]
  intro x hx
  have hne : x.address ≠ address := by simpa using (List.mem_filter.mp hx).2
  simp [hne]

lemma record?_remove_of_ne (ha : a ≠ address) :
    (r.remove address).record? now a = r.record? now a := by
  rw [record?, remove, List.find?_filter, record?]
  congr 1
  funext x
  by_cases hx : x.address = a
  · simp [hx, ha]
  · simp [hx]

/-- No record expires at the moment when it is put down. -/
lemma record?_write_self : (r.write now address bytes).record? now address =
    some ⟨address, bytes, now + r.lifetime⟩ := by
  have hlt : now < now + r.lifetime := by
    simp [lifetime]
  simp [record?, write, hlt]

lemma record?_write_of_ne (ha : a ≠ address) :
    (r.write now address bytes).record? later a = r.record? later a := by
  have hne : ¬ address = a := fun h => ha h.symm
  calc (r.write now address bytes).record? later a
      = (r.remove address).record? later a := by simp [record?, write, hne]
    _ = r.record? later a := record?_remove_of_ne ha

lemma Tidy.draw (h : r.Tidy) : r.draw.2.Tidy := h

lemma Tidy.remove (h : r.Tidy) (address : String) : (r.remove address).Tidy :=
  List.Nodup.sublist (List.filter_sublist.map _) h

lemma Tidy.write (h : r.Tidy) (now : Nat) (address : String) (bytes : List UInt8) :
    (r.write now address bytes).Tidy := by
  refine List.nodup_cons.mpr ⟨?_, h.remove address⟩
  intro hm
  obtain ⟨x, hx, ha⟩ := List.mem_map.mp hm
  simpa [ha] using (List.mem_filter.mp hx).2

/-! ### Who holds an address -/

lemma holds_iff : r.Holds now address lease ↔
    ∃ expires, r.record? now address = some ⟨address, pendingRecord lease, expires⟩ := by
  rw [Holds, read?_eq, Option.map_eq_some_iff]
  constructor
  · rintro ⟨⟨a, bytes, expires⟩, hx, rfl⟩
    obtain ⟨-, rfl, -⟩ := of_record? hx
    exact ⟨expires, hx⟩
  · rintro ⟨expires, hx⟩
    exact ⟨_, hx, rfl⟩

/-- An address has one holder at most. -/
lemma Holds.unique {lease' : Lease} (h : r.Holds now address lease)
    (h' : r.Holds now address lease') : lease = lease' :=
  pendingRecord_inj.mp (Option.some.inj (h.symm.trans h'))

lemma holds_iff_of_record? (hx : r.record? now address = some x) :
    r.Holds now address lease ↔ x.bytes = pendingRecord lease := by
  rw [Holds, read?_eq, hx, Option.map_some, Option.some.injEq]

lemma not_holds_of_record? (hx : r.record? now address = none) :
    ¬ r.Holds now address lease := by
  simp [Holds, read?_eq, hx]

/-! ### What is found -/

lemma peek_of_none (h : r.record? now key.recordKey = none) :
    r.peek now key = .error .notObtained := by
  simp only [peek, read?_eq, h, Option.map_none, readRecord]

lemma peek_of_holds (h : r.Holds now key.recordKey lease) : r.peek now key = .ok none := by
  have ht : (pendingRecord lease).head? = some pendingTag := rfl
  rw [peek, h, readRecord, if_pos ht]

lemma peek_of_plain (h : r.record? now key.recordKey = some x)
    (plain : x.bytes.head? ≠ some pendingTag) :
    r.peek now key = (Envelope.decode x.bytes).map some := by
  simp only [peek, read?_eq, h, Option.map_some, readRecord, if_neg plain]

/-! ### Operations -/

/-- What an operation answers, and what it leaves behind. -/
inductive Effect (r : RecordStore) (now : Nat) (key : IdempotencyKey) :
    Operation → Outcome → RecordStore → Prop where
  | granted (free : r.record? now key.recordKey = none) :
    Effect r now key .tryAcquire (.acquired (some r.draw.1))
      (r.draw.2.write now key.recordKey (pendingRecord r.draw.1))
  | refused (taken : r.record? now key.recordKey ≠ none) :
    Effect r now key .tryAcquire (.acquired none) r.draw.2
  | found : Effect r now key .peek (.found (r.peek now key)) r
  | stored (lease : Lease) (e : Envelope) (holds : r.Holds now key.recordKey lease) :
    Effect r now key (.store lease e) (.stored (.ok ())) (r.write now key.recordKey e.encode)
  | lost (lease : Lease) (e : Envelope) (lacks : ¬ r.Holds now key.recordKey lease) :
    Effect r now key (.store lease e) (.stored (.error .leaseLost)) r
  | released (lease : Lease) (holds : r.Holds now key.recordKey lease) :
    Effect r now key (.release lease) .released (r.remove key.recordKey)
  | kept (lease : Lease) (lacks : ¬ r.Holds now key.recordKey lease) :
    Effect r now key (.release lease) .released r

/-- Every operation has one of these effects. -/
lemma effect (r : RecordStore) (now : Nat) (key : IdempotencyKey) (operation : Operation) :
    Effect r now key operation (Backend.records.operate r now key operation).1
      (Backend.records.operate r now key operation).2 := by
  cases operation with
  | tryAcquire =>
    cases hx : r.record? now key.recordKey with
    | none =>
      have hr : r.draw.2.read? now key.recordKey = none := by
        rw [read?_eq, record?_draw, hx, Option.map_none]
      have ha : r.tryAcquire now key =
          (some r.draw.1, r.draw.2.write now key.recordKey (pendingRecord r.draw.1)) := by
        simp only [tryAcquire, hr]
      simp only [Backend.operate, Backend.records, ha]
      exact .granted hx
    | some x =>
      have hr : r.draw.2.read? now key.recordKey = some x.bytes := by
        rw [read?_eq, record?_draw, hx, Option.map_some]
      have ha : r.tryAcquire now key = (none, r.draw.2) := by
        simp only [tryAcquire, hr]
      simp only [Backend.operate, Backend.records, ha]
      exact .refused (by simp [hx])
  | peek => exact .found
  | store lease e =>
    simp only [Backend.operate, Backend.records, store]
    split
    · rename_i holds
      exact .stored lease e holds
    · rename_i lacks
      exact .lost lease e lacks
  | release lease =>
    simp only [Backend.operate, Backend.records, release]
    split
    · rename_i holds
      exact .released lease holds
    · rename_i lacks
      exact .kept lease lacks

/-- To store succeeds just for the lease that the record names. -/
lemma stored_iff (r : RecordStore) (now : Nat) (key : IdempotencyKey) (lease : Lease)
    (e : Envelope) : (Backend.records.operate r now key (.store lease e)).1 = .stored (.ok ()) ↔
      r.Holds now key.recordKey lease := by
  have effect := r.effect now key (.store lease e)
  generalize Backend.records.operate r now key (.store lease e) = done at effect ⊢
  obtain ⟨outcome, r'⟩ := done
  cases effect with
  | stored _ _ holds => exact ⟨fun _ => holds, fun _ => rfl⟩
  | lost _ _ lacks => exact ⟨nofun, fun holds => absurd holds lacks⟩

namespace Effect

variable {operation : Operation} {outcome : Outcome} {r' : RecordStore}

lemma tidy (h : Effect r now key operation outcome r') (tidy : r.Tidy) : r'.Tidy := by
  cases h with
  | granted => exact tidy.draw.write _ _ _
  | refused => exact tidy.draw
  | found => exact tidy
  | stored => exact tidy.write _ _ _
  | lost => exact tidy
  | released => exact tidy.remove _
  | kept => exact tidy

/-- Nothing is changed but at the address of the key. -/
lemma record?_of_ne (h : Effect r now key operation outcome r') (ha : a ≠ key.recordKey)
    (later : Nat) : r'.record? later a = r.record? later a := by
  cases h with
  | granted => rw [record?_write_of_ne ha, record?_draw]
  | refused => rw [record?_draw]
  | found => rfl
  | stored => rw [record?_write_of_ne ha]
  | lost => rfl
  | released => rw [record?_remove_of_ne ha]
  | kept => rfl

lemma ttl_eq (h : Effect r now key operation outcome r') : r'.ttl = r.ttl := by
  cases h <;> rfl

lemma leases_eq (h : Effect r now key operation outcome r') : r'.leases = r.leases := by
  cases h <;> rfl

/-- Only those who want to acquire a key use up a lease. -/
lemma drawn_eq (h : Effect r now key operation outcome r') :
    r'.drawn = r.drawn + if operation.isAttempt then 1 else 0 := by
  cases h <;> rfl

end Effect

end RecordStore

end OnceProxy
