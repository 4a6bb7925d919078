/-
# Concurrent allocation is free of conflicts

Callers of `AllocateSubnet` on one pool interleave in any way, lists may be arbitrarily old,
any request may fail, and allocations may be deleted at any time. Still the allocations that
exist at any time are pairwise disjoint and lie in the pool, and two calls that succeed with
no deletion in between return different subnets (`subnets_conflict_free`).

The argument does not use the lists at all. A subnet is created under a name that its address
determines, so of two callers with one subnet the second is refused as long as the first
allocation exists.
-/

import Wireflow.Theorems.Subnets.Search

namespace Wireflow.Controller

open Go.Net List
open Semantics Contract
open Wireflow.Api Table

variable {ι : Type} {net : IPNet} {m : ℕ} {pool : LatticeGlobalIPPool}

/-! ## Histories -/

/-- No deletion strictly between two positions. -/
def NoDeletionBetween (history : List (SubnetEvent ι)) (n n' : ℕ) : Prop :=
  ∀ k key, n < k → k < n' → history[k]? ≠ some (.deleted key)

/-- The call of `i` that returned at position `r` created its subnet at position `n`. -/
structure Success (history : List (SubnetEvent ι)) (n r : ℕ) (i : ι) (cidr : String) : Prop where
  created : history[n]? = some (.created i cidr)
  returned : history[r]? = some (.returned i cidr)
  before : n < r
  /-- Nothing else of `i` happened in between, so both belong to one call. -/
  oneCall : ∀ k e, n < k → k < r → history[k]? = some e → e.caller ≠ some i

variable {history extra : List (SubnetEvent ι)} {i j : ι} {c d : String} {n n' r r' : ℕ}

theorem getElem_concat {e x : SubnetEvent ι} :
    (history ++ [e])[n]? = some x ↔ history[n]? = some x ∨ (n = history.length ∧ e = x) := by
  rcases Nat.lt_trichotomy n history.length with hlt | rfl | hgt
  · rw [getElem?_append_left hlt]
    constructor
    · exact .inl
    · intro h
      rcases h with h | ⟨heq, -⟩
      · exact h
      · omega
  · simp
  · rw [getElem?_eq_none (by simp; omega), getElem?_eq_none (by omega)]
    simp
    omega

theorem lt_of_getElem {x : SubnetEvent ι} (h : history[n]? = some x) : n < history.length :=
  (List.getElem?_eq_some_iff.mp h).1

/-- What has happened stays in the history. -/
theorem Success.append (h : Success history n r i c) (extra : List (SubnetEvent ι)) :
    Success (history ++ extra) n r i c := by
  have hold : ∀ k ≤ r, (history ++ extra)[k]? = history[k]? := by
    intro k hk
    exact getElem?_append_left (lt_of_le_of_lt hk (lt_of_getElem h.returned))
  refine ⟨?_, ?_, h.before, fun k e hn hr hk => ?_⟩
  · rw [hold n h.before.le]
    exact h.created
  · rw [hold r le_rfl]
    exact h.returned
  · rw [hold k hr.le] at hk
    exact h.oneCall k e hn hr hk

/-- Different calls have created their subnets at different times. -/
theorem Success.ne (h : Success history n r i c) (h' : Success history n' r' j d)
    (hr : r ≠ r') : n ≠ n' := by
  intro heq
  subst heq
  have hsame := Option.some.inj (h.created.symm.trans h'.created)
  cases hsame
  -- the earlier of the two returns lies between the creation and the later return
  rcases Nat.lt_or_gt_of_ne hr with hlt | hgt
  · exact h'.oneCall r _ h.before hlt h.returned rfl
  · exact h.oneCall r' _ h'.before hgt h'.returned rfl

/-- Deletions between positions of the old history. -/
theorem NoDeletionBetween.of_append (h : NoDeletionBetween (history ++ extra) n n')
    (hn' : n' ≤ history.length) : NoDeletionBetween history n n' := by
  intro k key hn hk hget
  apply h k key hn hk
  rw [getElem?_append_left (by omega)]
  exact hget

theorem NoDeletionBetween.of_concat {e : SubnetEvent ι}
    (h : NoDeletionBetween (history ++ [e]) n (history ++ [e]).length) :
    NoDeletionBetween history n history.length := by
  intro k key hn hk hget
  apply h k key hn (by simp; omega)
  rw [getElem?_append_left hk]
  exact hget

/-- The caller's last event is the creation of a subnet. -/
def LastCreated (history : List (SubnetEvent ι)) (i : ι) (c : String) : Prop :=
  ∃ n : ℕ, history[n]? = some (.created i c) ∧
    ∀ k e, n < k → history[k]? = some e → e.caller ≠ some i

/-- What is to be shown of a history. -/
structure Chronicle (history : List (SubnetEvent ι)) : Prop where
  distinct : ∀ n n' i j c d, n < n' → history[n]? = some (.created i c) →
    history[n']? = some (.created j d) → NoDeletionBetween history n n' → c ≠ d
  matched : ∀ r i c, history[r]? = some (.returned i c) → ∃ n, Success history n r i c

/-- One more event. A creation has to differ from those since the last deletion, and a return
has to follow the creation it reports. -/
theorem Chronicle.concat (h : Chronicle history) (e : SubnetEvent ι)
    (hcreated : ∀ i c, e = .created i c → ∀ n j d, history[n]? = some (.created j d) →
      NoDeletionBetween history n history.length → d ≠ c)
    (hreturned : ∀ i c, e = .returned i c → LastCreated history i c) :
    Chronicle (history ++ [e]) := by
  refine ⟨fun n n' i j c d hlt hn hn' hkept => ?_, fun r i c hr => ?_⟩
  · rcases getElem_concat.mp hn' with hold' | ⟨hlast, hnew⟩
    · have hlen := lt_of_getElem hold'
      rcases getElem_concat.mp hn with hold | ⟨heq, -⟩
      · exact h.distinct n n' i j c d hlt hold hold' (hkept.of_append hlen.le)
      · omega
    · subst hlast
      rcases getElem_concat.mp hn with hold | ⟨heq, -⟩
      · exact hcreated j d hnew n i c hold (hkept.of_append le_rfl)
      · omega
  · rcases getElem_concat.mp hr with hold | ⟨hlast, hnew⟩
    · obtain ⟨n, hn⟩ := h.matched r i c hold
      exact ⟨n, hn.append _⟩
    · obtain ⟨n, hn, hquiet⟩ := hreturned i c hnew
      have hlen := lt_of_getElem hn
      refine ⟨n, getElem_concat.mpr (.inl hn), getElem_concat.mpr (.inr ⟨hlast, hnew⟩),
        by omega, fun k x hk hkr hget => ?_⟩
      rcases getElem_concat.mp hget with hold | ⟨heq, -⟩
      · exact hquiet k x hk hold
      · omega

/-! ## The invariant -/

/-- What all callers keep together. -/
structure AuditInv (net : IPNet) (m : ℕ) (a : Audit ι) : Prop where
  issued : ∀ k x, a.world.store.allocations.get k = some x → Issued net m x
  /-- What was created and not deleted since is there. -/
  present : ∀ n i c, a.history[n]? = some (.created i c) →
    NoDeletionBetween a.history n a.history.length →
    ∃ k x, a.world.store.allocations.get k = some x ∧ x.cidr = c
  chronicle : Chronicle a.history

variable {a a' : Audit ι}

variable {x : LatticeSubnetAllocation}

theorem issued_put {t : Table LatticeSubnetAllocation}
    (ht : ∀ k y, t.get k = some y → Issued net m y) (hx : Issued net m x) :
    ∀ k y, (t.put x).get k = some y → Issued net m y := by
  intro k y hy
  rcases get_put_cases hy with ⟨-, rfl⟩ | ⟨-, hold⟩
  · exact hx
  · exact ht k y hold

/-- A subnet is added and nobody is told. -/
theorem AuditInv.lostCreation (h : AuditInv net m a) (hx : Issued net m x)
    (hfree : a.world.store.allocations.get x.metadata.key = none) :
    AuditInv net m { a with
      world := a.world.commit { a.world.store with
        allocations := a.world.store.allocations.put x } } := by
  refine ⟨issued_put h.issued hx, fun n i c hn hkept => ?_, h.chronicle⟩
  obtain ⟨k, y, hy, hcidr⟩ := h.present n i c hn hkept
  exact ⟨k, y, get_put_of_free hfree hy, hcidr⟩

/-- One more event, where what is created is there. -/
theorem AuditInv.note (h : AuditInv net m a) {e : SubnetEvent ι}
    (hcreated : ∀ i c, e = .created i c →
      ∃ k x, a.world.store.allocations.get k = some x ∧ x.cidr = c)
    (hchronicle : Chronicle (a.history ++ [e])) :
    AuditInv net m { a with history := a.history ++ [e] } := by
  refine ⟨h.issued, fun n i c hn hkept => ?_, hchronicle⟩
  rcases getElem_concat.mp hn with hold | ⟨-, hnew⟩
  · exact h.present n i c hold hkept.of_concat
  · exact hcreated i c hnew

/-- A subnet is added and its caller told. -/
theorem AuditInv.creation (h : AuditInv net m a) (hx : Issued net m x)
    (hfree : a.world.store.allocations.get x.metadata.key = none) (i : ι) :
    AuditInv net m
      { world := a.world.commit { a.world.store with
          allocations := a.world.store.allocations.put x }
        history := a.history ++ [.created i x.cidr] } := by
  apply (h.lostCreation hx hfree).note
  · rintro i c ⟨⟩
    exact ⟨x.metadata.key, x, get_put_self _ x, rfl⟩
  · refine h.chronicle.concat _ ?_ nofun
    rintro i c ⟨⟩ n j d hn hkept hsame
    -- the earlier subnet still exists, so its name was not free
    obtain ⟨k, y, hy, hcidr⟩ := h.present n j d hn hkept
    have hkey : y.metadata.key = x.metadata.key :=
      (h.issued k y hy).key_of_cidr hx (hcidr.trans hsame)
    have hk : k = x.metadata.key := (key_of_get hy).symm.trans hkey
    rw [hk, hfree] at hy
    cases hy

/-- A caller that has created a subnet returns it. -/
theorem AuditInv.completion (h : AuditInv net m a) (hlast : LastCreated a.history i c) :
    AuditInv net m { a with history := a.history ++ [.returned i c] } := by
  refine h.note nofun (h.chronicle.concat _ nofun ?_)
  rintro i c ⟨⟩
  exact hlast

/-- An allocation is deleted. -/
theorem AuditInv.deletion (h : AuditInv net m a) (key : NamespacedName) :
    AuditInv net m
      { world := a.world.commit { a.world.store with
          allocations := a.world.store.allocations.erase key }
        history := a.history ++ [.deleted key] } := by
  refine ⟨fun k x hx => ?_, fun n j d hn hkept => ?_, h.chronicle.concat _ nofun nofun⟩
  · by_cases hk : k = key
    · subst hk
      simp [World.commit] at hx
    · exact h.issued k x ((get_erase_ne hk).symm.trans hx)
  · rcases getElem_concat.mp hn with hold | ⟨-, hnew⟩
    · -- the deletion comes after every earlier event
      have hlen := lt_of_getElem hold
      exact absurd (getElem_concat.mpr (.inr ⟨rfl, rfl⟩))
        (hkept a.history.length key hlen (by simp))
    · cases hnew

/-! ## The callers -/

/-- The history has grown by events that are not about `i`. -/
def Unnoticed (i : ι) (a a' : Audit ι) : Prop :=
  ∃ extra, a'.history = a.history ++ extra ∧ ∀ e ∈ extra, e.caller ≠ some i

def auditContract (net : IPNet) (m : ℕ) :
    Contract ι (Note ι NetworkCall SubnetResult) (Audit ι) Choice NamespacedName where
  inv := AuditInv net m
  rely := Unnoticed
  guar i a a' := ∀ j, j ≠ i → Unnoticed j a a'
  admits _ _ _ _ := True
  admitsEnv _ _ := True

theorem unnoticed_append {e : SubnetEvent ι} (hcaller : e.caller ≠ some j)
    (hhistory : a'.history = a.history ++ [e]) : Unnoticed j a a' :=
  ⟨[e], hhistory, by simpa using hcaller⟩

theorem unnoticed_of_eq (hhistory : a'.history = a.history) : Unnoticed j a a' :=
  ⟨[], by simpa using hhistory, by simp⟩

/-- The creation stays the last event of its caller. -/
theorem LastCreated.unnoticed (h : LastCreated a.history i c) (hextra : Unnoticed i a a') :
    LastCreated a'.history i c := by
  obtain ⟨n, hn, hquiet⟩ := h
  obtain ⟨extra, hhistory, hothers⟩ := hextra
  refine ⟨n, ?_, fun k e hk hget => ?_⟩
  · rw [hhistory, getElem?_append_left (lt_of_getElem hn)]
    exact hn
  · rw [hhistory] at hget
    by_cases hold : k < a.history.length
    · rw [getElem?_append_left hold] at hget
      exact hquiet k e hk hget
    · rw [getElem?_append_right (by omega)] at hget
      exact hothers e (mem_of_getElem? hget)

/-- A creation that has just been noted is the last event. -/
theorem lastCreated_concat (history : List (SubnetEvent ι)) (i : ι) (c : String) :
    LastCreated (history ++ [.created i c]) i c := by
  refine ⟨history.length, getElem_concat.mpr (.inr ⟨rfl, rfl⟩), fun k e hk hget => ?_⟩
  have hlen := lt_of_getElem hget
  simp only [length_append, length_singleton] at hlen
  omega

/-- The call that creates a subnet. -/
theorem step_createAllocation (hx : Issued net m x) (choice : Choice) (hinv : AuditInv net m a)
    {r : Except GoError Unit × Audit ι} (hr : audit (.call i (.createAllocation x)) choice a = r) :
    AuditInv net m r.2 ∧ (∀ j, j ≠ i → Unnoticed j a r.2) ∧
      (r.1 = .ok () → LastCreated r.2.history i x.cidr) := by
  rcases createAllocation_cases x choice a.world with ⟨err, heq⟩ | ⟨hfree, hworld, hanswer⟩
  · -- refused
    have hsame : r = (.error err, a) := by simp [← hr, audit, heq, creation]
    rw [hsame]
    exact ⟨hinv, fun j _ => unnoticed_of_eq rfl, nofun⟩
  · rcases hanswer with hok | ⟨f, -, -, herr⟩
    · -- created, and the caller is told
      simp only [← hr, audit, hworld, hok, creation]
      refine ⟨hinv.creation hx hfree i, fun j hj => ?_, fun _ => ?_⟩
      · apply unnoticed_append _ rfl
        simpa [SubnetEvent.caller] using hj.symm
      · exact lastCreated_concat a.history i x.cidr
    · -- created, but the answer got lost
      simp only [← hr, audit, hworld, herr, creation, append_nil]
      exact ⟨hinv.lostCreation hx hfree, fun j _ => unnoticed_of_eq rfl, nofun⟩

/-- Callers keep to the contract. -/
theorem auditCaller (hpool : ValidPool pool net m) (i : ι) (name : String) :
    Caller ((auditContract net m).callsOf i) (fun c => audit (.call i c)) i name pool
      (fun ip => ∃ b, ip = .v4 b ∧ Subnet net m b) (fun _ => True)
      fun c a => LastCreated a.history i c where
  stable _ _ _ _ := trivial
  reads c hc t choice _ hinv _ := by
    have hsame : (audit (.call i c) choice t).2 = t := by
      cases c with
      | patchNetworkStatus | createAllocation => exact hc.elim
      | _ => simp [audit, creation, execNetwork]
    rw [hsame]
    exact ⟨hinv, fun j _ => unnoticed_of_eq rfl, trivial⟩
  create ip hip t choice _ hinv _ := by
    obtain ⟨b, rfl, hsubnet⟩ := hip
    have hissued : Issued net m (newAllocation name pool (.v4 b)) := by
      refine ⟨b, hsubnet, rfl, ?_⟩
      rw [← hpool.mask]
      rfl
    obtain ⟨hinv', hothers, hlast⟩ := step_createAllocation hissued choice hinv rfl
    exact ⟨hinv', hothers, hlast, fun _ _ => trivial⟩

/-- The last note of a call. -/
theorem wp_return (r : SubnetResult)
    (h : ∀ c, r = some (.ok c) → LastCreated a.history i c) :
    (auditContract net m).wp audit i (.call (.done i r) fun _ => .ret ())
      (fun _ _ => True) a := by
  apply wp_call (fun t => ∀ c, r = some (.ok c) → LastCreated t.history i c)
    (fun t t' ht hextra c hc => (ht c hc).unnoticed hextra) h
  intro t ht hinv choice _
  have hquiet : completion i r = [] → (auditContract net m).inv (audit (.done i r) choice t).2 ∧
      (auditContract net m).guar i t (audit (.done i r) choice t).2 ∧ True := by
    intro hnone
    have hsame : (audit (.done i r) choice t).2 = t := by simp [audit, hnone]
    rw [hsame]
    exact ⟨hinv, fun j _ => unnoticed_of_eq rfl, trivial⟩
  cases r with
  | none => exact hquiet rfl
  | some r =>
    cases r with
    | error err => exact hquiet rfl
    | ok c =>
      refine ⟨hinv.completion (ht c rfl), fun j hj => ?_, trivial⟩
      apply unnoticed_append _ rfl
      simpa [SubnetEvent.caller] using hj.symm

theorem audit_respects (hpool : ValidPool pool net m) (names : ι → String) :
    (auditContract net m).Respects (subnetCallers names pool) where
  program i a _ _ := wp_journal
    (wp_mono (fun r _ h => wp_return r h.1)
      (wp_allocateAttempts (auditCaller hpool i (names i)) (within_findFirstFree_valid hpool) 10
        trivial))
  stable _ _ _ _ _ := trivial
  compat i j a a' hij hguar := hguar j hij.symm
  env key a hinv _ := by
    rw [subnetCallers]
    dsimp only [removeAllocation]
    split
    · exact ⟨hinv, fun j => unnoticed_of_eq rfl⟩
    · refine ⟨hinv.deletion key, fun j => unnoticed_append ?_ rfl⟩
      simp [SubnetEvent.caller]

/-! ## The theorem -/

/-- **Concurrent allocation is free of conflicts.** At any time allocations are disjoint and
lie in the pool; every call that returned a subnet has created it; and two such calls with no
deletion between the creations have different subnets. -/
theorem subnets_conflict_free [DecidableEq ι] (names : ι → String) (hpool : ValidPool pool net m)
    (w : World) (hstart : ∀ k, w.store.allocations.get k = none)
    (schedule : List (Action ι Choice NamespacedName)) :
    (∀ k k' x y,
      (auditAfter names pool w schedule).world.store.allocations.get k = some x →
      (auditAfter names pool w schedule).world.store.allocations.get k' = some y →
      k ≠ k' → DisjointCIDRs x.cidr y.cidr) ∧
    (∀ k x, (auditAfter names pool w schedule).world.store.allocations.get k = some x →
      CIDRWithin x.cidr pool.cidr) ∧
    (∀ r i c, (auditAfter names pool w schedule).history[r]? = some (.returned i c) →
      ∃ n, Success (auditAfter names pool w schedule).history n r i c) ∧
    (∀ n r i c n' r' j d, Success (auditAfter names pool w schedule).history n r i c →
      Success (auditAfter names pool w schedule).history n' r' j d → r ≠ r' →
      NoDeletionBetween (auditAfter names pool w schedule).history (min n n') (max n n') →
      c ≠ d) := by
  have hinit : AuditInv net m ({ world := w } : Audit ι) := by
    refine ⟨fun k x hx => ?_, fun n i c hn => ?_, fun n n' i j c d _ hn => ?_, fun r i c hr => ?_⟩
    · simp [hstart k] at hx
    · simp at hn
    · simp at hn
    · simp at hr
  have hsound : (auditContract net m).Sound (subnetCallers names pool)
      ((subnetCallers names pool).run (Workers.idle { world := w }) schedule) :=
    (sound_idle hinit fun _ => trivial).run (audit_respects hpool names)
      (along_of_admits (fun _ _ _ _ => trivial) (fun _ _ => trivial) schedule)
  have hinv : AuditInv net m (auditAfter names pool w schedule) := hsound.inv
  refine ⟨fun k k' x y hx hy hne => ?_, fun k x hx => (hinv.issued k x hx).within hpool,
    hinv.chronicle.matched, fun n r i c n' r' j d h h' hr hkept => ?_⟩
  · apply (hinv.issued k x hx).disjoint hpool.le (hinv.issued k' y hy)
    intro hkey
    exact hne ((key_of_get hx).symm.trans (hkey.trans (key_of_get hy)))
  · rcases Nat.lt_or_gt_of_ne (h.ne h' hr) with hlt | hgt
    · rw [min_eq_left hlt.le, max_eq_right hlt.le] at hkept
      exact hinv.chronicle.distinct n n' i j c d hlt h.created h'.created hkept
    · rw [min_eq_right hgt.le, max_eq_left hgt.le] at hkept
      exact (hinv.chronicle.distinct n' n j i d c hgt h'.created h.created hkept).symm

/-! ## A race

Two callers list the allocations before either has created one, so both try the same subnet. -/

namespace Race

def ipPool : LatticeGlobalIPPool :=
  { metadata := { name := "lattice-ip-pool" }, cidr := "10.0.0.0/24", subnetMask := 25 }

theorem ipPool_valid : ValidPool ipPool ⟨.v4 0x0a000000, 24, 32⟩ 25 :=
  ⟨by decide +kernel, rfl, rfl, by decide, by decide⟩

/-- Both callers take turns up to their first attempt to create; then each goes on alone. -/
def schedule : List (Action Bool Choice NamespacedName) :=
  [.start true, .start false] ++
    (List.replicate 3 [.advance true {}, .advance false {}]).flatten ++
    List.replicate 2 (.advance true {}) ++ List.replicate 4 (.advance false {})

def outcome : Audit Bool := auditAfter (fun _ => "n") ipPool {} schedule

end Race

open Race in
/-- The second caller is refused, looks again and gets the next subnet. -/
theorem subnets_conflict_free_race :
    outcome.history = [.created true "10.0.0.0/25", .returned true "10.0.0.0/25",
      .created false "10.0.0.128/25", .returned false "10.0.0.128/25"] ∧
    ∃ n n', Success outcome.history n 1 true "10.0.0.0/25" ∧
      Success outcome.history n' 3 false "10.0.0.128/25" ∧ "10.0.0.0/25" ≠ "10.0.0.128/25" := by
  have hhistory : outcome.history = [.created true "10.0.0.0/25", .returned true "10.0.0.0/25",
      .created false "10.0.0.128/25", .returned false "10.0.0.128/25"] := by
    decide +kernel
  obtain ⟨-, -, hmatched, hdistinct⟩ :=
    subnets_conflict_free (fun _ => "n") ipPool_valid {} (fun _ => rfl) schedule
  have hfirst : outcome.history[1]? = some (.returned true "10.0.0.0/25") := by rw [hhistory]; rfl
  have hsecond : outcome.history[3]? = some (.returned false "10.0.0.128/25") := by
    rfl
  obtain ⟨n, hn⟩ := hmatched 1 true "10.0.0.0/25" hfirst
  obtain ⟨n', hn'⟩ := hmatched 3 false "10.0.0.128/25" hsecond
  refine ⟨hhistory, n, n', hn, hn', hdistinct _ _ _ _ _ _ _ _ hn hn' (by decide) ?_⟩
  intro k key _ _ hk
  have hmem := mem_of_getElem? hk
  change SubnetEvent.deleted key ∈ outcome.history at hmem
  simp [hhistory] at hmem

end Wireflow.Controller
