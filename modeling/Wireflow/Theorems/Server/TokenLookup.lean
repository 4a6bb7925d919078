/-
# Two ways to look a token up

`Register` looks for a token by its status first and by its spec if there is none, and takes the
last that it finds. `GetNetworkMap` looks by the spec and keeps the last whose status agrees. So
they may differ: on a token whose status has not been written yet, and on tokens of several
namespaces with one value, where the order of the list decides.

`resolve_alike_iff` says for which tokens they do not differ: a value that occurs at all occurs
in spec and status of one token, and all tokens with this value in their status are in one
namespace.
-/

import Mathlib.Data.Fintype.EquivFin
import Wireflow.Theorems.Server.TokenLimits

namespace Wireflow.Server

open Semantics Program List Go.Order
open Wireflow.Api Table
open Wireflow.Controller (Choice World found)

section

variable {T T' : Table LatticeEnrollmentToken} {t : LatticeEnrollmentToken} {v : String}
  {k : NamespacedName} {keys : KeyReader}

/-! ## The last match -/

section LastSuch

variable {α : Type} {test : α → Bool} {items : List α} {a : α}

theorem lastSuch_concat :
    lastSuch test (items ++ [a]) = if test a then some a else lastSuch test items := by
  simp [lastSuch]

theorem lastSuch_eq_some (h : lastSuch test items = some a) : a ∈ items ∧ test a := by
  induction items using reverseRecOn with
  | nil => simp [lastSuch] at h
  | append_singleton items b ih =>
    rw [lastSuch_concat] at h
    split_ifs at h with hb
    · cases h
      exact ⟨by simp, hb⟩
    · obtain ⟨hmem, ha⟩ := ih h
      exact ⟨mem_append_left _ hmem, ha⟩

theorem lastSuch_eq_none (h : lastSuch test items = none) : ∀ b ∈ items, test b = false := by
  induction items using reverseRecOn with
  | nil => simp
  | append_singleton items b ih =>
    rw [lastSuch_concat] at h
    split_ifs at h with hb
    intro c hc
    rcases mem_append.mp hc with hold | hnew
    · exact ih h c hold
    · rw [mem_singleton.mp hnew]
      simpa using hb

end LastSuch

/-- The token that is picked, if any passes the test. -/
theorem pickToken_cases (test : LatticeEnrollmentToken → Bool)
    (items : List LatticeEnrollmentToken) :
    (∃ t ∈ items, test t ∧ pickToken test items = .ok t) ∨
      (pickToken test items = .error tokenMissing ∧ ∀ t ∈ items, test t = false) := by
  unfold pickToken
  cases h : lastSuch test items with
  | none => exact .inr ⟨rfl, lastSuch_eq_none h⟩
  | some t =>
    obtain ⟨hmem, htest⟩ := lastSuch_eq_some h
    exact .inl ⟨t, hmem, htest, rfl⟩

theorem pickToken_concat {test : LatticeEnrollmentToken → Bool}
    {items : List LatticeEnrollmentToken} (h : test t) :
    pickToken test (items ++ [t]) = .ok t := by
  simp [pickToken, lastSuch_concat, h]

/-! ## Lists of tokens -/

theorem selects_iff_value {index : TokenIndex} (hv : v ≠ "") :
    index.selects v t = true ↔ index.value t = v := by
  simp only [TokenIndex.selects, ne_eq, decide_not, Bool.and_eq_true, Bool.not_eq_eq_eq_not,
    Bool.not_true, decide_eq_false_iff_not, decide_eq_true_eq, and_iff_right_iff_imp]
  intro h
  rw [h]
  exact hv

theorem mem_tokensBy {s : Store} {order : Go.Order} {index : TokenIndex} (hv : v ≠ "") :
    t ∈ tokensBy s order index v ↔
      s.tokens.get t.metadata.key = some t ∧ index.value t = v := by
  rw [tokensBy, mem_filter, selects_iff_value hv]
  exact and_congr_left' mem_listAll

/-- Some order puts a given token last. -/
theorem exists_last (h : T.get k = some t) :
    ∃ (order : Go.Order) (rest : List LatticeEnrollmentToken),
      T.listAll order = rest ++ [t] := by
  classical
  have hmem : (k, t) ∈ T.objects.pairs := Go.GoMap.mem_pairs.mpr h
  have hperm : (T.objects.pairs.erase (k, t) ++ [(k, t)]).Perm T.objects.pairs :=
    (perm_append_singleton _ _).trans (perm_cons_erase hmem).symm
  obtain ⟨order, horder⟩ := exists_visit_eq hperm
  refine ⟨order, (T.objects.pairs.erase (k, t)).map Prod.snd, ?_⟩
  rw [listAll, Go.GoMap.range, horder]
  simp

theorem exists_last_by {s : Store} (index : TokenIndex) (hv : v ≠ "")
    (h : s.tokens.get k = some t) (hvalue : index.value t = v) :
    ∃ (order : Go.Order) (rest : List LatticeEnrollmentToken),
      tokensBy s order index v = rest ++ [t] := by
  obtain ⟨order, rest, hlist⟩ := exists_last h
  refine ⟨order, rest.filter (index.selects v), ?_⟩
  rw [tokensBy, hlist, filter_append]
  simp [(selects_iff_value hv).mpr hvalue]

/-! ## Undisturbed runs -/

/-- Every call is answered from the current store. -/
def Current (choices : ℕ → Choice) : Prop :=
  ∀ n, (choices n).fault = none ∧ (choices n).lag = 0

variable {V : Visit}

theorem Current.tail (h : Current V.choices) : Current fun n => V.choices (n + 1) :=
  fun n => h (n + 1)

theorem run_issue (c : ServerCall) (V : Visit) : c.issue.run visit V = visit c V := rfl

theorem visit_listTokens (h : Current V.choices) (index : TokenIndex) :
    visit (.listTokens index v) V =
      (.ok (tokensBy V.site.world.store (V.choices 0).listOrder index v),
        ⟨V.site, fun n => V.choices (n + 1)⟩) := by
  simp [visit, execServer, Choice.read, (h 0).1, (h 0).2, World.seen]

/-- What `Register` takes a value for. -/
def Resolves (T : Table LatticeEnrollmentToken) (v : String) :
    Except GoError LatticeEnrollmentToken → Prop
  | .ok t => T.get t.metadata.key = some t ∧ (t.status.token = v ∨
      (t.spec.token = v ∧ ∀ k t', T.get k = some t' → t'.status.token ≠ v))
  | .error _ => ∀ k t, T.get k = some t → t.spec.token ≠ v ∧ t.status.token ≠ v

theorem ensures_findToken (hv : v ≠ "") (hc : Current V.choices) :
    (findToken v).Ensures visit (fun answer V' => V'.site = V.site ∧ Current V'.choices ∧
      Resolves V.site.world.store.tokens v answer) V := by
  unfold findToken
  rw [if_neg hv]
  apply ensures_call.mpr
  rw [visit_listTokens hc]
  generalize hlist : tokensBy V.site.world.store (V.choices 0).listOrder .statusToken v = byStatus
  have hmem : ∀ t, t ∈ byStatus ↔ V.site.world.store.tokens.get t.metadata.key = some t ∧
      t.status.token = v := by
    intro t
    rw [← hlist]
    exact mem_tokensBy hv
  cases byStatus with
  | cons t rest =>
    -- all that were found have the value in their status
    refine ⟨rfl, hc.tail, ?_⟩
    rcases pickToken_cases (fun t => t.status.token = v || t.spec.token = v) (t :: rest) with
      ⟨t', ht', -, hpick⟩ | ⟨-, hnone⟩
    · obtain ⟨hstored, hstatus⟩ := (hmem t').mp ht'
      change Resolves _ v (pickToken _ _)
      rw [hpick]
      exact ⟨hstored, .inl hstatus⟩
    · have ht := (hmem t).mp mem_cons_self
      simpa [ht.2] using hnone t mem_cons_self
  | nil =>
    have hnoStatus : ∀ k t, V.site.world.store.tokens.get k = some t → t.status.token ≠ v := by
      intro k t hget hstatus
      obtain rfl : t.metadata.key = k := key_of_get hget
      simpa using (hmem t).mpr ⟨hget, hstatus⟩
    apply ensures_call.mpr
    rw [visit_listTokens hc.tail]
    refine ⟨rfl, fun n => hc (n + 2), ?_⟩
    change Resolves _ v (pickToken _ _)
    rcases pickToken_cases (fun t => t.status.token = v || t.spec.token = v)
      (tokensBy V.site.world.store (V.choices 1).listOrder .specToken v) with
      ⟨t, ht, -, hpick⟩ | ⟨hpick, hnone⟩
    · rw [hpick]
      obtain ⟨hstored, hspec⟩ := (mem_tokensBy hv).mp ht
      exact ⟨hstored, .inr ⟨hspec, hnoStatus⟩⟩
    · rw [hpick]
      intro k t hget
      refine ⟨fun hspec => ?_, hnoStatus k t hget⟩
      obtain rfl : t.metadata.key = k := key_of_get hget
      have := hnone t ((mem_tokensBy hv).mpr ⟨hget, hspec⟩)
      simp [hspec] at this

/-- What `GetNetworkMap` takes a value for. -/
def MapResolves (T : Table LatticeEnrollmentToken) (v : String) :
    Except GoError LatticeEnrollmentToken → Prop
  | .ok t => T.get t.metadata.key = some t ∧ t.spec.token = v ∧ t.status.token = v
  | .error _ => ∀ k t, T.get k = some t → ¬ (t.spec.token = v ∧ t.status.token = v)

theorem ensures_findMapToken (hv : v ≠ "") (hc : Current V.choices) :
    (findMapToken v).Ensures visit
      (fun answer _ => MapResolves V.site.world.store.tokens v answer) V := by
  unfold findMapToken
  rw [if_neg hv]
  apply ensures_call.mpr
  rw [visit_listTokens hc]
  change MapResolves _ v (pickToken _ _)
  rcases pickToken_cases (fun t => t.status.token = v)
    (tokensBy V.site.world.store (V.choices 0).listOrder .specToken v) with
    ⟨t, ht, hstatus, hpick⟩ | ⟨hpick, hnone⟩
  · rw [hpick]
    obtain ⟨hstored, hspec⟩ := (mem_tokensBy hv).mp ht
    exact ⟨hstored, hspec, by simpa using hstatus⟩
  · rw [hpick]
    intro k t hget hboth
    obtain rfl : t.metadata.key = k := key_of_get hget
    have := hnone t ((mem_tokensBy hv).mpr ⟨hget, hboth.1⟩)
    simp [hboth.2] at this

/-- The choices that answer every list in one order. -/
def ordered (order : Go.Order) : ℕ → Choice := fun _ => { listOrder := order }

theorem current_ordered (order : Go.Order) : Current (ordered order) := fun _ => ⟨rfl, rfl⟩

variable {site : Site}

/-- In some order a given token with the value in its status is the one that `Register` takes. -/
theorem exists_findToken (hv : v ≠ "") (hget : site.world.store.tokens.get k = some t)
    (hstatus : t.status.token = v) :
    ∃ order, (findToken v).Ensures visit
      (fun answer V => answer = .ok t ∧ V = ⟨site, ordered order⟩) ⟨site, ordered order⟩ := by
  obtain ⟨order, rest, hlist⟩ := exists_last_by .statusToken hv hget hstatus
  refine ⟨order, ?_⟩
  have hpick : pickToken (fun t => t.status.token = v || t.spec.token = v) (rest ++ [t]) =
      .ok t := pickToken_concat (by simp [hstatus])
  unfold findToken
  rw [if_neg hv]
  apply ensures_call.mpr
  change (orBySpec v (tokensBy site.world.store order .statusToken v) >>= _).Ensures visit _ _
  rw [hlist]
  have hsome : orBySpec v (rest ++ [t]) = .ret (.ok (rest ++ [t])) := by simp [orBySpec]
  rw [hsome]
  exact ⟨hpick, rfl⟩

/-- In some order a given token with the value in spec and status is the one that
`GetNetworkMap` takes. -/
theorem exists_findMapToken (site : Site) (hv : v ≠ "")
    (hget : site.world.store.tokens.get k = some t) (hspec : t.spec.token = v)
    (hstatus : t.status.token = v) :
    ∃ order, (findMapToken v).Ensures visit (fun answer _ => answer = .ok t)
      ⟨site, ordered order⟩ := by
  obtain ⟨order, rest, hlist⟩ := exists_last_by .specToken hv hget hspec
  refine ⟨order, ?_⟩
  unfold findMapToken
  rw [if_neg hv]
  apply ensures_call.mpr
  change pickToken _ (tokensBy site.world.store order .specToken v) = .ok t
  rw [hlist]
  exact pickToken_concat (by simp [hstatus])

/-! ## Registration -/

/-- What the lookups read of a token. -/
def view (t : LatticeEnrollmentToken) : String × String := (t.spec.token, t.status.token)

/-- The lookups see no difference. -/
def SameView (T T' : Table LatticeEnrollmentToken) : Prop :=
  ∀ k, (T'.get k).map view = (T.get k).map view

theorem SameView.get (h : SameView T T') (hget : T.get k = some t) :
    ∃ t', T'.get k = some t' ∧ t'.spec.token = t.spec.token ∧
      t'.status.token = t.status.token := by
  have hk := h k
  rw [hget] at hk
  cases hget' : T'.get k with
  | none => simp [hget'] at hk
  | some t' =>
    simp only [hget', Option.map_some, Option.some.injEq, view, Prod.mk.injEq] at hk
    exact ⟨t', rfl, hk⟩

theorem SameView.symm (h : SameView T T') : SameView T' T := fun k => (h k).symm

theorem sameView_count (hget : T.get k = some t) :
    SameView T (T.put (withTokenStatus (countedUse t).status t)) := by
  have hkey : t.metadata.key = k := key_of_get hget
  intro k'
  by_cases hk : k' = k
  · subst hk
    have hself := get_put_self T (withTokenStatus (countedUse t).status t)
    rw [key_withTokenStatus, hkey] at hself
    rw [hself, hget]
    rfl
  · rw [get_put_ne]
    rw [key_withTokenStatus, hkey]
    exact hk

/-- What is left when a use of the token has been counted. -/
def afterCount (t : LatticeEnrollmentToken) (V : Visit) : Visit where
  site := { V.site with
    world := V.site.world.commit { V.site.world.store with
      tokens := V.site.world.store.tokens.put (withTokenStatus (countedUse t).status t) } }
  choices n := V.choices (n + 2)

/-- Without disturbance the first attempt to count a use succeeds. -/
theorem run_countUse (hc : Current V.choices) (hget : V.site.world.store.tokens.get k = some t) :
    (countUse k).run visit V = (.ok (), afterCount t V) := by
  have hkey : t.metadata.key = k := key_of_get hget
  have hread : visit (.getToken k) V = (.ok t, ⟨V.site, fun n => V.choices (n + 1)⟩) := by
    simp [visit, execServer, Choice.read, (hc 0).1, (hc 0).2, World.seen, hget, found]
  have hwrite : V.site.world.store.updateTokenStatus (countedUse t) =
      .ok ((), { V.site.world.store with
        tokens := V.site.world.store.tokens.put (withTokenStatus (countedUse t).status t) }) := by
    simp [Store.updateTokenStatus, countedUse, hkey, hget]
  have hanswer : visit (.updateTokenStatus (countedUse t)) ⟨V.site, fun n => V.choices (n + 1)⟩ =
      (.ok (), afterCount t V) := by
    simp [visit, execServer, Choice.write, hwrite, (hc 1).1, afterCount]
  rw [countUse, run_bind, run_issue, hread]
  exact hanswer

theorem run_retryOnConflict (hc : Current V.choices)
    (hget : V.site.world.store.tokens.get k = some t) (n : ℕ) :
    (retryOnConflict (countUse k) n).run visit V = (.ok (), afterCount t V) := by
  cases n with
  | zero => exact run_countUse hc hget
  | succ n =>
    rw [retryOnConflict, run_bind, run_countUse hc hget]
    rfl

/-- The token that `checkToken` accepts without disturbance. -/
theorem ensures_checkToken (hv : v ≠ "") (hc : Current V.choices) :
    (checkToken v).Ensures visit (fun answer V' =>
      Resolves V.site.world.store.tokens v answer ∧
      ∀ t, answer = .ok t → Current V'.choices ∧
        SameView V.site.world.store.tokens V'.site.world.store.tokens) V := by
  apply (ensures_findToken hv hc).bind
  intro answer V₁ h
  obtain ⟨hsite, hc₁, hresolves⟩ := h
  cases answer with
  | error err => exact ⟨hresolves, nofun⟩
  | ok t =>
    have hget : V₁.site.world.store.tokens.get t.metadata.key = some t := by
      rw [hsite]
      exact hresolves.1
    have hsame := sameView_count hget
    apply ensures_bind.mpr
    unfold Ensures
    rw [run_retryOnConflict hc₁ hget]
    refine ⟨hresolves, fun _ _ => ⟨fun n => hc₁ (n + 2), ?_⟩⟩
    simpa [afterCount, World.commit, hsite] using hsame

/-- Registering a peer leaves the tokens alone. -/
theorem ensures_registerPeer (keys : KeyReader) (ns : String) (e : PeerDto) :
    (registerPeer keys ns e).Ensures visit (fun answer V' =>
      (∀ node, answer = .ok node → node.networkId = ns) ∧
        V'.site.world.store.tokens = V.site.world.store.tokens) V := by
  have hkeeps : ∀ (c : ServerCall) (V' : Visit), Quiet c →
      V'.site.world.store.tokens = V.site.world.store.tokens →
        (visit c V').2.site.world.store.tokens = V.site.world.store.tokens := by
    intro c V' hquiet hV'
    rcases world_leavesTokens hquiet.1 (V'.choices 0) V'.site with h | ⟨s, hs, h⟩
    · rw [visit, h]
      exact hV'
    · rw [visit, h]
      exact hs.trans hV'
  exact ensures_of_within (quiet_registerPeer keys ns e) hkeeps rfl

variable {e : PeerDto}

/-- What a successful registration has done. -/
theorem ensures_register (keys : KeyReader) (hv : e.token ≠ "") (hc : Current V.choices) :
    (register keys e).Ensures visit (fun answer V' => ∀ node, answer = .ok node →
      ∃ t, Resolves V.site.world.store.tokens e.token (.ok t) ∧
        node.networkId = t.metadata.ns ∧ node.token = actualToken t ∧
        SameView V.site.world.store.tokens V'.site.world.store.tokens) V := by
  unfold register registerWith
  rw [bind_assoc]
  apply (ensures_checkToken hv hc).bind
  intro answer V₁ h
  obtain ⟨hresolves, hafter⟩ := h
  cases answer with
  | error err => exact nofun
  | ok t =>
    obtain ⟨-, hsame⟩ := hafter t rfl
    rw [bind_assoc]
    apply (ensures_registerPeer keys t.metadata.ns e).bind
    intro answer V₂ h
    obtain ⟨hns, htokens⟩ := h
    cases answer with
    | error err => exact nofun
    | ok node =>
      intro node' h
      cases h
      refine ⟨t, hresolves, hns node rfl, rfl, ?_⟩
      change SameView _ V₂.site.world.store.tokens
      rw [htokens]
      exact hsame

/-- A node that is not known yet gets a new key and is created. -/
theorem run_registerPeer_fresh (keys : KeyReader) {ns : String} (hc : Current V.choices)
    (hfresh : V.site.world.store.peers.get ⟨ns, e.appId⟩ = none) :
    ∃ node V', (registerPeer keys ns e).run visit V = (.ok node, V') ∧ node.networkId = ns := by
  have hread : visit (.getPeer ⟨ns, e.appId⟩) V =
      (.error (notFoundError peerResource e.appId), ⟨V.site, fun n => V.choices (n + 1)⟩) := by
    simp [visit, execServer, Choice.read, (hc 0).1, (hc 0).2, World.seen, hfresh, found]
  have hgenerate : visit .generatePrivateKey ⟨V.site, fun n => V.choices (n + 1)⟩ =
      (.ok (V.choices 1).key, ⟨V.site, fun n => V.choices (n + 2)⟩) := by
    simp [visit, execServer, Choice.read, (hc 1).1]
  have hkey : (registrationKey keys ⟨ns, e.appId⟩).run visit V =
      (.ok (V.choices 1).key, ⟨V.site, fun n => V.choices (n + 2)⟩) := by
    rw [registrationKey, run_bind, run_issue, hread]
    exact hgenerate
  have happly : ∃ node V', visit (.applyPeer (newPeer ns e (V.choices 1).key))
      ⟨V.site, fun n => V.choices (n + 2)⟩ = (.ok node, V') := by
    have hnone : V.site.world.store.peers.get
        (newPeer ns e (V.choices 1).key).metadata.key = none := hfresh
    simp [visit, execServer, Choice.write, applyPeer, hnone, (hc 2).1]
  obtain ⟨node, V', hnode⟩ := happly
  rw [registerPeer, run_bind, hkey]
  rw [run_bind, run_issue, hnode]
  exact ⟨_, _, rfl, rfl⟩

/-- In some order a node that is not known yet is registered in the namespace of a given token
with the value in its status. -/
theorem exists_register (keys : KeyReader) (hv : e.token ≠ "")
    (hget : site.world.store.tokens.get k = some t) (hstatus : t.status.token = e.token)
    (hfresh : ∀ ns, site.world.store.peers.get ⟨ns, e.appId⟩ = none) :
    ∃ choices, Current choices ∧ ∃ node V,
      (register keys e).run visit ⟨site, choices⟩ = (.ok node, V) ∧
        node.networkId = t.metadata.ns := by
  obtain ⟨order, hfind, hsame⟩ := exists_findToken hv hget hstatus
  refine ⟨ordered order, current_ordered order, ?_⟩
  have hget' : site.world.store.tokens.get t.metadata.key = some t := by
    rw [show t.metadata.key = k from key_of_get hget]
    exact hget
  have hcheck : (checkToken e.token).run visit ⟨site, ordered order⟩ =
      (.ok t, afterCount t ⟨site, ordered order⟩) := by
    rw [checkToken, run_bind, hfind, hsame]
    rw [run_bind, run_retryOnConflict (current_ordered order) hget']
    rfl
  obtain ⟨node, V, hpeer, hns⟩ := run_registerPeer_fresh keys
    (V := afterCount t ⟨site, ordered order⟩) (current_ordered order) (hfresh t.metadata.ns)
  rw [register, run_bind, registerWith, run_bind, hcheck]
  rw [run_bind, hpeer]
  exact ⟨_, _, rfl, hns⟩

/-- There is always another name. -/
theorem exists_fresh (peers : Table LatticePeer) :
    ∃ name, ∀ ns, peers.get ⟨ns, name⟩ = none := by
  obtain ⟨name, hname⟩ := Infinite.exists_notMem_finset
    (peers.objects.pairs.map fun e => e.1.name).toFinset
  refine ⟨name, fun ns => ?_⟩
  cases hget : peers.get ⟨ns, name⟩ with
  | none => rfl
  | some p =>
    have hmem : (⟨ns, name⟩, p) ∈ peers.objects.pairs := Go.GoMap.mem_pairs.mpr hget
    exact absurd (mem_toFinset.mpr (mem_map.mpr ⟨_, hmem, rfl⟩)) hname

/-! ## The theorem -/

/-- `Register` and `GetNetworkMap` resolve the value alike, whatever the order of the lists. -/
structure ResolveAlike (keys : KeyReader) (site : Site) (v : String) : Prop where
  /-- After a registration the map is looked for in the namespace of the peer, both with the
  value itself and with the one that was returned. -/
  sameNamespace : ∀ e choices node V, e.token = v → Current choices →
    (register keys e).run visit ⟨site, choices⟩ = (.ok node, V) →
    ∀ value, value = v ∨ value = node.token → ∀ choices', Current choices' →
      ∃ t V', (findMapToken value).run visit ⟨V.site, choices'⟩ = (.ok t, V') ∧
        t.metadata.ns = node.networkId
  /-- Both accept the value, or none does. -/
  sameAnswer : ∀ choices choices', Current choices → Current choices' →
    (((findToken v).run visit ⟨site, choices⟩).1.isOk ↔
      ((findMapToken v).run visit ⟨site, choices'⟩).1.isOk)

/-- A value that occurs at all occurs in spec and status of one token, and all tokens with this
value in their status are in one namespace. -/
def Settled (T : Table LatticeEnrollmentToken) (v : String) : Prop :=
  (∀ k t, T.get k = some t → t.spec.token ≠ v ∧ t.status.token ≠ v) ∨
    ((∃ k t, T.get k = some t ∧ t.spec.token = v ∧ t.status.token = v) ∧
      ∀ k k' t t', T.get k = some t → T.get k' = some t' → t.status.token = v →
        t'.status.token = v → k.ns = k'.ns)

theorem resolveAlike_of_settled (hv : v ≠ "") (h : Settled site.world.store.tokens v) :
    ResolveAlike keys site v := by
  constructor
  · intro e choices node V he hc hrun value hvalue choices' hc'
    subst he
    obtain ⟨t, ⟨hget, hwhich⟩, hns, htoken, hsame⟩ :=
      ensures_register keys hv hc node (by rw [hrun])
    rw [hrun] at hsame
    rcases h with hnone | ⟨⟨k₀, t₀, hget₀, hspec₀, hstatus₀⟩, hone⟩
    · exfalso
      rcases hwhich with hstatus | ⟨hspec, -⟩
      · exact (hnone _ t hget).2 hstatus
      · exact (hnone _ t hget).1 hspec
    · have hstatus : t.status.token = e.token := by
        rcases hwhich with hstatus | ⟨-, hnoStatus⟩
        · exact hstatus
        · exact absurd hstatus₀ (hnoStatus k₀ t₀ hget₀)
      -- the value that is returned is the one that was sent
      have hvalue : value = e.token := by
        rcases hvalue with rfl | rfl
        · rfl
        · rw [htoken, actualToken, if_neg]
          · exact hstatus
          · rw [hstatus]
            exact hv
      subst hvalue
      have hmap := ensures_findMapToken (V := ⟨V.site, choices'⟩) hv hc'
      unfold Ensures at hmap
      cases hfound : ((findMapToken e.token).run visit ⟨V.site, choices'⟩).1 with
      | error err =>
        rw [hfound] at hmap
        obtain ⟨t', hget', hspec', hstatus'⟩ := hsame.get hget₀
        exact absurd ⟨hspec'.trans hspec₀, hstatus'.trans hstatus₀⟩ (hmap k₀ t' hget')
      | ok t' =>
        rw [hfound] at hmap
        obtain ⟨hget', -, hstatus'⟩ := hmap
        refine ⟨t', _, Prod.ext hfound rfl, ?_⟩
        obtain ⟨t₁, hget₁, -, hstatus₁⟩ := hsame.symm.get hget'
        rw [hns]
        exact hone _ _ t₁ t hget₁ hget (hstatus₁.trans hstatus') hstatus
  · intro choices choices' hc hc'
    obtain ⟨-, -, hreg⟩ := ensures_findToken (V := ⟨site, choices⟩) hv hc
    have hmap := ensures_findMapToken (V := ⟨site, choices'⟩) hv hc'
    unfold Ensures at hmap
    cases hfound : ((findToken v).run visit ⟨site, choices⟩).1 with
    | error err =>
      rw [hfound] at hreg
      cases hfound' : ((findMapToken v).run visit ⟨site, choices'⟩).1 with
      | error err => simp [Except.isOk, Except.toBool]
      | ok t =>
        rw [hfound'] at hmap
        exact absurd hmap.2.1 (hreg _ t hmap.1).1
    | ok t =>
      rw [hfound] at hreg
      cases hfound' : ((findMapToken v).run visit ⟨site, choices'⟩).1 with
      | ok t' => simp [Except.isOk, Except.toBool]
      | error err =>
        rw [hfound'] at hmap
        rcases h with hnone | ⟨⟨k₀, t₀, hget₀, hspec₀, hstatus₀⟩, -⟩
        · rcases hreg.2 with hstatus | ⟨hspec, -⟩
          · exact absurd hstatus (hnone _ t hreg.1).2
          · exact absurd hspec (hnone _ t hreg.1).1
        · exact absurd ⟨hspec₀, hstatus₀⟩ (hmap k₀ t₀ hget₀)

theorem settled_of_resolveAlike (hv : v ≠ "") (h : ResolveAlike keys site v) :
    Settled site.world.store.tokens v := by
  have hplain := current_ordered inPlace
  obtain ⟨-, -, hreg⟩ := ensures_findToken (V := ⟨site, ordered inPlace⟩) hv hplain
  have hmap := ensures_findMapToken (V := ⟨site, ordered inPlace⟩) hv hplain
  have hsame := h.sameAnswer _ _ hplain hplain
  unfold Ensures at hmap
  cases hfound : ((findToken v).run visit ⟨site, ordered inPlace⟩).1 with
  | error err =>
    rw [hfound] at hreg
    exact .inl hreg
  | ok t =>
    cases hfound' : ((findMapToken v).run visit ⟨site, ordered inPlace⟩).1 with
    | error err => simp [hfound, hfound', Except.isOk, Except.toBool] at hsame
    | ok t₀ =>
      rw [hfound'] at hmap
      obtain ⟨hget₀, hspec₀, hstatus₀⟩ := hmap
      refine .inr ⟨⟨_, t₀, hget₀, hspec₀, hstatus₀⟩, ?_⟩
      -- every token that `Register` may take is in the namespace of this one
      have hns : ∀ k t, site.world.store.tokens.get k = some t → t.status.token = v →
          k.ns = t₀.metadata.ns := by
        intro k t hget hstatus
        obtain ⟨name, hfresh⟩ := exists_fresh site.world.store.peers
        obtain ⟨choices, hc, node, V, hrun, hnode⟩ := exists_register keys
          (e := { appId := name, token := v }) hv hget hstatus hfresh
        obtain ⟨-, -, -, -, hview⟩ := ensures_register keys hv hc node (by rw [hrun])
        rw [hrun] at hview
        obtain ⟨t₁, hget₁, hspec₁, hstatus₁⟩ := hview.get hget₀
        obtain ⟨order, hlast⟩ := exists_findMapToken V.site hv hget₁
          (hspec₁.trans hspec₀) (hstatus₁.trans hstatus₀)
        obtain ⟨t₂, V', hmap₂, hns₂⟩ := h.sameNamespace _ choices node V rfl hc hrun v (.inl rfl)
          (ordered order) (current_ordered order)
        unfold Ensures at hlast
        rw [hmap₂] at hlast
        cases hlast
        have hk : t.metadata.ns = k.ns := congrArg NamespacedName.ns (key_of_get hget)
        have hk₁ : t₁.metadata.ns = t₀.metadata.ns :=
          congrArg NamespacedName.ns (key_of_get hget₁)
        rw [← hk, ← hnode, ← hns₂, hk₁]
      intro k k' t t' hget hget' hstatus hstatus'
      rw [hns k t hget hstatus, hns k' t' hget' hstatus']

/-- **Tokens are resolved alike** exactly when the value is settled. The empty value is refused
by both. -/
theorem resolve_alike_iff (keys : KeyReader) (site : Site) (v : String) :
    ResolveAlike keys site v ↔ v = "" ∨ Settled site.world.store.tokens v := by
  by_cases hv : v = ""
  · subst hv
    refine iff_of_true ⟨fun e choices node V he _ hrun => ?_, fun _ _ _ _ => Iff.rfl⟩ (.inl rfl)
    -- no registration succeeds with the empty value
    have hfind : findToken e.token = .ret (.error tokenEmpty) := by
      rw [he]
      rfl
    rw [register, registerWith, checkToken, hfind] at hrun
    cases (Prod.mk.inj hrun).1
  · rw [or_iff_right hv]
    exact ⟨settled_of_resolveAlike hv, resolveAlike_of_settled hv⟩

end

/-! ## A token that the controller has not seen yet -/

namespace Unseen

def keys : KeyReader := ⟨fun text => .ok { privateKey := text }⟩

/-- The value is in the spec only. -/
def token : LatticeEnrollmentToken :=
  { metadata := { ns := "wf-1", name := "invite" }, spec := { token := "t" } }

def site : Site := { world := { store := { tokens := .ofList [token] } } }

/-- The site after the node `a` has registered. -/
def registered : Except GoError Registration × Visit :=
  (register keys { appId := "a", token := "t" }).run visit ⟨site, fun _ => {}⟩

end Unseen

open Unseen in
/-- **A token that admits a node and then is not known.** `Register` accepts the token and hands
it back; `GetNetworkMap` refuses it. -/
theorem admitted_token_refused :
    registered.1.map Registration.token = .ok "t" ∧
      registered.1.map Registration.networkId = .ok "wf-1" ∧
      ((getNetworkMap "t" "a").run visit ⟨registered.2.site, fun _ => {}⟩).1 =
        .error tokenMissing := by
  have htoken : registered.1.map Registration.token = .ok "t" := by decide +kernel
  have hns : registered.1.map Registration.networkId = .ok "wf-1" := by decide +kernel
  have hmap : ((getNetworkMap "t" "a").run visit ⟨registered.2.site, fun _ => {}⟩).1 =
      .error tokenMissing := by
    decide +kernel
  exact ⟨htoken, hns, hmap⟩

end Wireflow.Server
