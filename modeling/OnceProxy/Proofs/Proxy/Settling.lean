import OnceProxy.Proofs.Proxy.Turns

/-!
# Settling

A request that is about to store an envelope needs three turns to do so: to call the operation, to
look up its entry and to act on it. Whatever else happens in between, each of these turns takes it
nearer, and after them it is settled whether the envelope was stored.
-/

namespace OnceProxy

/-- The client that makes a move. -/
def StoreMove.client? : StoreMove → Option Nat
  | call i _ _ => some i
  | lookUp i => some i
  | act i => some i
  | quit i => some i
  | _ => none

namespace StoreState

variable {s : StoreState} {i : Nat} {c : Client}

/-- A move of a client leaves the other clients alone. -/
lemma client_other (hc : s.clients[i]? = some c) {move : StoreMove} (hm : move.client? ≠ some i) :
    (s.step move).clients[i]? = some c := by
  -- whatever happens to another client leaves this one as it is
  have set {j : Nat} {d : Client} (hj : some j ≠ some i) : (s.clients.set j d)[i]? = some c := by
    rw [List.getElem?_set_ne fun h => hj (congrArg some h), hc]
  have heard {j : Nat} {t : StoreState} (h : s.Heard j t) (hj : some j ≠ some i) :
      t.clients[i]? = some c := by
    cases h with
    | nothing _ ht => rw [ht, hc]
    | found _ _ _ _ _ ht => rw [ht, set hj]
    | answered _ _ _ _ _ _ _ _ ht => rw [ht, set hj]
  cases move with
  | join => exact (List.getElem?_append_left (List.getElem?_eq_some_iff.mp hc).1).trans hc
  | call j key operation =>
    rcases s.clients_call j key operation with ht | ⟨lease, ht⟩
    · exact (congrArg (·[i]?) ht).trans hc
    · exact (congrArg (·[i]?) ht).trans (set hm)
  | lookUp j => exact heard (s.heard_lookUp j) hm
  | act j => exact heard (s.heard_act j) hm
  | quit j => exact (congrArg (·[i]?) (s.clients_quit j)).trans (set hm)
  | fire task => exact (congrArg (·[i]?) (s.clients_fire task)).trans hc
  | sweep => exact hc
  | wait ms => exact hc

/-- A client that is idle asks for what it calls, and any other one has called before. -/
lemma client_call (hc : s.clients[i]? = some c) (key : IdempotencyKey) (operation : Operation) :
    (c = .idle ∧ ∃ action, (s.call i key operation).clients[i]? = some (.asking key action)) ∨
      c ≠ .idle ∧ s.call i key operation = s := by
  have hlt := (List.getElem?_eq_some_iff.mp hc).1
  cases c with
  | idle =>
    refine .inl ⟨rfl, ?_⟩
    cases operation <;> simp only [call, hc] <;> exact ⟨_, List.getElem?_set_self hlt⟩
  | asking => exact .inr ⟨by simp, by simp only [call, hc]⟩
  | holding => exact .inr ⟨by simp, by simp only [call, hc]⟩

/-- A client that has asked for something looks it up, unless it has an answer at once. -/
lemma client_lookUp (hc : s.clients[i]? = some c) :
    (∃ key action, c = .asking key action ∧
      ((∃ slot, (s.lookUp i).clients[i]? = some (.holding key action slot)) ∨
        (s.lookUp i).log =
          s.log ++ [⟨s.now, key, .answered i action (MemoryStore.missing action)⟩])) ∨
      (∀ key action, c ≠ .asking key action) ∧ s.lookUp i = s := by
  have hlt := (List.getElem?_eq_some_iff.mp hc).1
  cases c with
  | idle => exact .inr ⟨by simp, by simp only [lookUp, hc]⟩
  | asking key action =>
    refine .inl ⟨key, action, rfl, ?_⟩
    simp only [lookUp, hc]
    cases s.store.lookUp key action with
    | none => exact .inr rfl
    | some found => exact .inl ⟨found.1, List.getElem?_set_self hlt⟩
  | holding => exact .inr ⟨by simp, by simp only [lookUp, hc]⟩

/-- A client that has looked up an entry has an answer when it acts. -/
lemma client_act (hc : s.clients[i]? = some c) :
    (∃ key action slot, c = .holding key action slot ∧ ∃ answer,
      (s.act i).log = s.log ++ [⟨s.now, key, .answered i action answer⟩]) ∨
      (∀ key action slot, c ≠ .holding key action slot) ∧ s.act i = s := by
  cases c with
  | idle => exact .inr ⟨by simp, by simp only [act, hc]⟩
  | asking => exact .inr ⟨by simp, by simp only [act, hc]⟩
  | holding key action slot =>
    refine .inl ⟨key, action, slot, rfl, (s.store.act s.now slot action).1, ?_⟩
    simp only [act, hc]

end StoreState

namespace ProxyState

/-- The turns that a request needs until its client has an answer. -/
def turnsLeft (i : Nat) : Client → List ProxyMove
  | .idle => [.call i, .lookUp i, .act i]
  | .asking _ _ => [.lookUp i, .act i]
  | .holding _ _ _ => [.act i]

/-- A request is about to store an envelope. -/
def Storing (s : ProxyState) (i : Nat) (job : Job) (lease : Lease) (e : Envelope) : Prop :=
  s.visitors[i]? = some ⟨job, .serving (.storing lease e)⟩

/-- What was seen since a request was about to store an envelope, when it is settled whether it was
stored. -/
inductive Settled (s : ProxyState) (i : Nat) (job : Job) (lease : Lease) (e : Envelope) :
    List Sign → Prop where
  | stored (before after : List Sign) (time : Nat)
    (hi : s.visitors[i]? = some ⟨job, .serving (.ended (.ok e))⟩)
    (early : Silent i before) (late : Silent i after) :
    Settled s i job lease e (before ++
      .event ⟨time, job.key, .answered i (.store lease e.encode) (.stored (.ok ()))⟩ :: after)
  | lost (before after : List Sign) (time : Nat) (error : ProxyError) (early : Silent i before) :
    Settled s i job lease e (before ++
      .event ⟨time, job.key, .answered i (.store lease e.encode) (.stored (.error error))⟩ :: after)

variable {s t : ProxyState} {move : ProxyMove} {i : Nat} {job : Job} {lease : Lease} {e : Envelope}
  {signs : List Sign}

/-! ### What is settled stays settled -/

lemma Settled.step (h : s.Settled i job lease e signs) (change : s.Change move t)
    (hd : move ≠ .drop i) :
    ∃ more, t.log = s.log ++ more ∧ t.Settled i job lease e (signs ++ more) := by
  cases h with
  | stored before after time hi early late =>
    cases change.goes hi with
    | stays more ht hl silent =>
      refine ⟨more, hl, ?_⟩
      rw [List.append_assoc, List.cons_append]
      exact .stored before (after ++ more) time ht early (late.append silent)
    | turns course' action answer signs turn => cases turn
    | paces stage stage' signs hc pace =>
      cases hc
      cases pace
    | drops _ _ hm => exact absurd hm hd
  | lost before after time error early =>
    obtain ⟨more, hl⟩ := change.log_eq
    refine ⟨more, hl, ?_⟩
    rw [List.append_assoc, List.cons_append]
    exact .lost before (after ++ more) time error early

lemma Settled.run (h : s.Settled i job lease e signs) (linked : s.Linked) {moves : List ProxyMove}
    (hd : .drop i ∉ moves) :
    ∃ more, (s.run moves).log = s.log ++ more ∧
      (s.run moves).Settled i job lease e (signs ++ more) := by
  induction moves generalizing s signs with
  | nil => exact ⟨[], (List.append_nil _).symm, by rwa [List.append_nil]⟩
  | cons move moves ih =>
    obtain ⟨linked', change⟩ := linked.step move
    obtain ⟨first, hl, h⟩ := h.step change (Ne.symm (List.ne_of_not_mem_cons hd))
    obtain ⟨more, hl', h⟩ := ih h linked' (List.not_mem_of_not_mem_cons hd)
    refine ⟨first ++ more, ?_, List.append_assoc signs first more ▸ h⟩
    rw [← List.append_assoc, ← hl]
    exact hl'

/-! ### Turns that lead there -/

/-- A request that is about to store stays so until it has its answer, which settles the matter. -/
lemma Storing.step (h : s.Storing i job lease e) (early : Silent i signs)
    (change : s.Change move t) (hd : move ≠ .drop i) :
    ∃ more, t.log = s.log ++ more ∧
      (t.Storing i job lease e ∧ Silent i more ∨ t.Settled i job lease e (signs ++ more)) := by
  cases change.goes h with
  | stays more ht hl silent => exact ⟨more, hl, .inl ⟨ht, silent⟩⟩
  | turns course' action answer more turn ht hl =>
    refine ⟨_, hl, .inr ?_⟩
    generalize t.calls = calls at turn
    cases turn with
    | stores => exact .stored signs _ _ ht early (.of_events_eq rfl)
    | loses _ _ error => exact .lost signs [] _ error early
  | paces stage stage' signs hc pace =>
    cases hc
    cases pace
  | drops _ _ hm => exact absurd hm hd

/-- While a request is about to store it has no answer. -/
lemma Storing.not_answered (h : s.Storing i job lease e) (valid : s.Valid)
    (ht : (s.step move).Storing i job lease e) (hd : move ≠ .drop i) (time : Nat)
    (key : IdempotencyKey) (action : Action) (answer : Answer) :
    (s.step move).entries.log ≠ s.entries.log ++ [⟨time, key, .answered i action answer⟩] := by
  intro he
  have hevents := (valid.step move).events
  have change := (valid.linked.step move).2
  generalize s.step move = t at change ht he hevents
  -- an answer would have been a turn, after which the envelope is no longer to be stored
  cases change.goes h with
  | stays more _ hl silent =>
    rw [hl, List.filterMap_append, valid.events, he] at hevents
    have hm : (⟨time, key, .answered i action answer⟩ : Event) ∈ more.filterMap Sign.event? := by
      rw [List.append_cancel_left hevents]
      exact List.mem_singleton_self _
    exact silent time key action answer (Sign.mem_events.mp hm)
  | turns course' _ _ _ turn ht' =>
    rw [ht] at ht'
    cases ht'
    cases turn
  | paces stage stage' signs hc pace =>
    cases hc
    cases pace
  | drops _ _ hm => exact hd hm

lemma client?_of_storeMove? {m : StoreMove} (h : s.storeMove? move = some m)
    (hm : m.client? = some i) : move ∈ [.call i, .lookUp i, .act i, .drop i] := by
  -- of all moves only these four are about the client of a request
  cases move with
  | call j =>
    obtain ⟨v, -, h⟩ := Option.bind_eq_some_iff.mp h
    obtain ⟨operation, -, h⟩ := Option.bind_eq_some_iff.mp h
    cases h
    cases hm
    simp
  | drop j =>
    simp only [storeMove?] at h
    split at h
    · cases h
      cases hm
      simp
    · cases h
  | lookUp | act =>
    cases h
    cases hm
    simp
  | arrive | fire | sweep | wait =>
    cases h
    cases hm
  | proceed => cases h

/-- While a request is about to store, its own turns take its client on, and no other move does. -/
lemma Storing.client_step (h : s.Storing i job lease e) (valid : s.Valid)
    (ht : (s.step move).Storing i job lease e) {c : Client} (hc : s.entries.clients[i]? = some c)
    (hd : move ≠ .drop i) :
    ∃ c', (s.step move).entries.clients[i]? = some c' ∧
      (turnsLeft i c = move :: turnsLeft i c' ∨ c' = c ∧ (turnsLeft i c).head? ≠ some move) := by
  have hn := h.not_answered valid ht hd
  rw [s.entries_step] at hn ⊢
  -- a move of the request takes the next turn, or it comes too early and does nothing
  by_cases own : move ∈ [.call i, .lookUp i, .act i]
  · simp only [List.mem_cons, List.not_mem_nil, or_false] at own
    rcases own with rfl | rfl | rfl
    · -- the call of a request that is about to store asks for that
      have he : s.storeMove? (.call i) = some (.call i job.key (.store lease e)) := by
        rw [storeMove?, h]
        rfl
      rw [he]
      rcases s.entries.client_call hc job.key (.store lease e) with ⟨rfl, action, ha⟩ | ⟨hne, ha⟩
      · exact ⟨_, ha, .inl rfl⟩
      · refine ⟨c, (congrArg (·.clients[i]?) ha).trans hc, .inr ⟨rfl, ?_⟩⟩
        cases c <;> simp_all [turnsLeft]
    · rcases s.entries.client_lookUp hc with ⟨key, action, rfl, ⟨slot, ha⟩ | ha⟩ | ⟨hne, ha⟩
      · exact ⟨_, ha, .inl rfl⟩
      · exact absurd ha (hn _ _ _ _)
      · refine ⟨c, (congrArg (·.clients[i]?) ha).trans hc, .inr ⟨rfl, ?_⟩⟩
        cases c <;> simp_all [turnsLeft]
    · rcases s.entries.client_act hc with ⟨key, action, slot, rfl, answer, ha⟩ | ⟨hne, ha⟩
      · exact absurd ha (hn _ _ _ _)
      · refine ⟨c, (congrArg (·.clients[i]?) ha).trans hc, .inr ⟨rfl, ?_⟩⟩
        cases c <;> simp_all [turnsLeft]
  · refine ⟨c, ?_, .inr ⟨rfl, ?_⟩⟩
    · cases hs : s.storeMove? move with
      | none => exact hc
      | some m =>
        apply StoreState.client_other hc
        intro hm
        -- any other move that is about this client drops the request
        have := client?_of_storeMove? hs hm
        simp_all
    · intro hh
      cases c <;> simp_all [turnsLeft]

/-- A request that gets the turns that it needs settles whether its envelope is stored. -/
lemma Storing.run (h : s.Storing i job lease e) (valid : s.Valid) (early : Silent i signs)
    {c : Client} (hc : s.entries.clients[i]? = some c) {moves : List ProxyMove}
    (turns : (turnsLeft i c).Sublist moves) (hd : .drop i ∉ moves) :
    ∃ more, (s.run moves).log = s.log ++ more ∧
      (s.run moves).Settled i job lease e (signs ++ more) := by
  -- on the moves: each takes a turn, settles the matter, or leaves the request where it is
  induction moves generalizing s c signs with
  | nil => cases c <;> cases turns
  | cons move moves ih =>
    have hne : move ≠ .drop i := Ne.symm (List.ne_of_not_mem_cons hd)
    have hd' := List.not_mem_of_not_mem_cons hd
    have valid' := valid.step move
    obtain ⟨first, hl, next⟩ := h.step early (valid.linked.step move).2 hne
    have glue {more : List Sign} (hl' : ((s.step move).run moves).log = (s.step move).log ++ more) :
        (s.run (move :: moves)).log = s.log ++ (first ++ more) := by
      rw [← List.append_assoc, ← hl]
      exact hl'
    rcases next with ⟨ht, silent⟩ | settled
    · obtain ⟨c', hc', hturn⟩ := h.client_step valid ht hc hne
      -- the turns that are still needed are among the moves that are left
      have turns' : (turnsLeft i c').Sublist moves := by
        rcases hturn with hturn | ⟨rfl, hhead⟩
        · rw [hturn] at turns
          exact List.cons_sublist_cons.mp turns
        · generalize turnsLeft i c' = left at turns hhead ⊢
          cases turns with
          | cons _ turns => exact turns
          | cons_cons => exact absurd rfl hhead
      obtain ⟨more, hl', settled⟩ := ih ht valid' (early.append silent) hc' turns' hd'
      exact ⟨first ++ more, glue hl', List.append_assoc signs first more ▸ settled⟩
    · obtain ⟨more, hl', settled⟩ := settled.run valid'.linked hd'
      exact ⟨first ++ more, glue hl', List.append_assoc signs first more ▸ settled⟩

end ProxyState

end OnceProxy
