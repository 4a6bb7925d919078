/-
# Usage limits and expiry of tokens

A token with a usage limit should admit no more nodes than that, and none after it has expired.
`Register` looks at neither: it counts its use of the token and goes on.

`limits_along` says what would make the limit hold. A use is counted only by an update that
carries the current version of the token, so counting is exact among callers. If no use is
counted once the limit is reached or the token has expired, and the token controller never lowers
the count (it patches a sum computed from a copy that may be old), then at most as many nodes are
admitted as the limit says.
-/

import Mathlib.Data.List.Perm.Subperm
import Wireflow.Server.Enrollment

namespace Wireflow.Server

open Semantics Program Contract List
open Wireflow.Api Table
open Wireflow.Controller (Choice World write_cases write_ok seen_mem found)

section

variable {ι : Type} {origin : Store} {key : NamespacedName}

/-! ## Versions of tokens -/

/-- Of every token the store has the latest version, and a version determines the token. -/
def Versioned (w : World) : Prop :=
  ∀ s ∈ w.past, ∀ k t t', s.tokens.get k = some t → w.store.tokens.get k = some t' →
    t.metadata.resourceVersion ≤ t'.metadata.resourceVersion ∧
      (t.metadata.resourceVersion = t'.metadata.resourceVersion → t = t')

variable {w : World} {t current : LatticeEnrollmentToken}

/-- The same with the store itself among the earlier ones. -/
theorem Versioned.of_mem (h : Versioned w) {s : Store} (hs : s ∈ w.store :: w.past)
    (ht : s.tokens.get key = some t) (hcurrent : w.store.tokens.get key = some current) :
    t.metadata.resourceVersion ≤ current.metadata.resourceVersion ∧
      (t.metadata.resourceVersion = current.metadata.resourceVersion → t = current) := by
  rcases mem_cons.mp hs with rfl | hpast
  · obtain rfl := Option.some.inj (ht.symm.trans hcurrent)
    exact ⟨le_rfl, fun _ => rfl⟩
  · exact h s hpast key t current ht hcurrent

/-- A write that leaves the tokens alone. -/
theorem Versioned.commit (h : Versioned w) {s : Store} (hs : s.tokens = w.store.tokens) :
    Versioned (w.commit s) := by
  intro s' hs' k t t' ht ht'
  change s.tokens.get k = some t' at ht'
  rw [hs] at ht'
  exact h.of_mem hs' ht ht'

@[simp] theorem key_withTokenStatus (status : LatticeEnrollmentTokenStatus) :
    (HasMeta.metadata (withTokenStatus status t)).key = t.metadata.key := rfl

/-- A write of a status makes a new version. -/
theorem Versioned.commit_status (h : Versioned w) (hget : w.store.tokens.get key = some current)
    (status : LatticeEnrollmentTokenStatus) :
    Versioned (w.commit { w.store with
      tokens := w.store.tokens.put (withTokenStatus status current) }) := by
  have hkey : current.metadata.key = key := key_of_get hget
  intro s hs k t t' ht ht'
  rcases get_put_cases ht' with ⟨hk, rfl⟩ | ⟨-, hold⟩
  · -- older versions are at most the one that was current
    have hle : t.metadata.resourceVersion ≤ current.metadata.resourceVersion := by
      rw [key_withTokenStatus, hkey] at hk
      subst hk
      exact (h.of_mem hs ht hget).1
    have hnext : (withTokenStatus status current).metadata.resourceVersion =
        current.metadata.resourceVersion + 1 := rfl
    constructor
    · omega
    · intro heq
      omega
  · exact h.of_mem hs ht hold

/-! ## The invariant -/

/-- The counted uses of a token. -/
def usesOf (r : Roll ι) (key : NamespacedName) : List (ι × NamespacedName) :=
  r.counted.filter fun use => use.2 = key

structure RollInv (origin : Store) (r : Roll ι) : Prop where
  versioned : Versioned r.site.world
  /-- Tokens are neither added nor is their spec changed. -/
  spec : ∀ k t, r.site.world.store.tokens.get k = some t →
    ∃ t₀, origin.tokens.get k = some t₀ ∧ t.spec = t₀.spec
  /-- Counted uses are in the count and within the limit. -/
  bounded : ∀ k t, r.site.world.store.tokens.get k = some t → 0 < t.spec.usageLimit →
    ((usesOf r k).length : ℤ) ≤ t.status.usedCount ∧
      ((usesOf r k).length : ℤ) ≤ t.spec.usageLimit
  present : ∀ k t₀, origin.tokens.get k = some t₀ →
    (r.site.world.store.tokens.get k).isSome
  /-- Whoever was admitted has counted a use, and was not late. -/
  admitted : ∀ i k start, (i, k, start) ∈ r.admitted → (i, k) ∈ r.counted ∧
    ∀ t₀, origin.tokens.get k = some t₀ → 0 < t₀.spec.usageLimit → start ≤ t₀.spec.expiry

/-- What is true for the others after a step. -/
structure Follows (r r' : Roll ι) : Prop where
  counted : ∀ use ∈ r.counted, use ∈ r'.counted
  stores : ∀ s ∈ r.site.world.store :: r.site.world.past,
    s ∈ r'.site.world.store :: r'.site.world.past

/-- A use may be counted only within the limit and by a call that was in time. -/
def MayCount (r : Roll ι) (i : ι) (obj : LatticeEnrollmentToken) : Prop :=
  match r.site.world.store.tokens.get obj.metadata.key with
  | none => True
  | some t => obj.metadata.resourceVersion = t.metadata.resourceVersion →
      0 < t.spec.usageLimit →
        t.status.usedCount < t.spec.usageLimit ∧ r.begun i ≤ t.spec.expiry

/-- A patch may not lower the count. -/
def MayPatch (r : Roll ι) (base modified : LatticeEnrollmentToken) : Prop :=
  match r.site.world.store.tokens.get modified.metadata.key with
  | none => True
  | some t => t.status.usedCount ≤
      (mergeTokenStatus base.status modified.status t.status).usedCount

instance (r : Roll ι) (i : ι) (obj : LatticeEnrollmentToken) : Decidable (MayCount r i obj) := by
  unfold MayCount
  exact match r.site.world.store.tokens.get obj.metadata.key with
    | none => .isTrue trivial
    | some _ => inferInstance

instance (r : Roll ι) (base modified : LatticeEnrollmentToken) :
    Decidable (MayPatch r base modified) := by
  unfold MayPatch
  exact match r.site.world.store.tokens.get modified.metadata.key with
    | none => .isTrue trivial
    | some _ => inferInstance

/-- What is asked of the calls: of the updates by which callers count, and of the patches. -/
def Restrained (r : Roll ι) (who : Party ι) : ServerCall → Prop
  | .updateTokenStatus obj => ∀ i, who = .inl i → MayCount r i obj
  | .patchTokenStatus base modified => MayPatch r base modified
  | _ => True

instance (r : Roll ι) (who : Party ι) (c : ServerCall) : Decidable (Restrained r who c) :=
  match c, who with
  | .updateTokenStatus obj, .inl i => decidable_of_iff (MayCount r i obj)
      ⟨fun h _ heq => Sum.inl.inj heq ▸ h, fun h => h i rfl⟩
  | .updateTokenStatus _, .inr _ => .isTrue fun _ heq => nomatch heq
  | .patchTokenStatus base modified, _ => inferInstanceAs (Decidable (MayPatch r base modified))
  | .listTokens _ _, _ | .getToken _, _ | .getPeer _, _ | .applyPeer _, _ | .getConfigMap _, _
  | .generatePrivateKey, _ | .now, _ => .isTrue trivial

/-- The end of a program is always admitted. -/
def Admits (r : Roll ι) : Note (Party ι) ServerCall Admission → Prop
  | .call who c => Restrained r who c
  | .done _ _ => True

instance (r : Roll ι) (c : Note (Party ι) ServerCall Admission) : Decidable (Admits r c) :=
  match c with
  | .call who c => inferInstanceAs (Decidable (Restrained r who c))
  | .done _ _ => .isTrue trivial

def limitContract (ι : Type) (origin : Store) :
    Contract (Party ι) (Note (Party ι) ServerCall Admission) (Roll ι) Choice Empty where
  inv := RollInv origin
  rely who r r' := Follows r r' ∧ ∀ i, who = .inl i → r'.begun i = r.begun i
  guar who r r' := Follows r r' ∧ ∀ i, who ≠ .inl i → r'.begun i = r.begun i
  admits _ c _ r := Admits r c
  admitsEnv _ _ := True

instance (who : Party ι) (c : Note (Party ι) ServerCall Admission) (ch : Choice) (r : Roll ι) :
    Decidable ((limitContract ι origin).admits who c ch r) :=
  inferInstanceAs (Decidable (Admits r c))

instance (e : Empty) (r : Roll ι) : Decidable ((limitContract ι origin).admitsEnv e r) :=
  inferInstanceAs (Decidable True)

variable {r r' : Roll ι} {i : ι}

theorem Follows.refl (r : Roll ι) : Follows r r := ⟨fun _ h => h, fun _ h => h⟩

/-- The stores after a write. -/
theorem stores_commit (w : World) (s : Store) :
    ∀ s' ∈ w.store :: w.past, s' ∈ (w.commit s).store :: (w.commit s).past :=
  fun _ h => mem_cons_of_mem _ h

/-! ## Single calls -/

/-- A call that leaves tokens, counted uses and admissions alone. -/
theorem RollInv.sameTokens (h : RollInv origin r) (next : Roll ι)
    (hworld : next.site.world = r.site.world ∨
      ∃ s, s.tokens = r.site.world.store.tokens ∧ next.site.world = r.site.world.commit s)
    (hcounted : next.counted = r.counted) (hadmitted : next.admitted = r.admitted) :
    RollInv origin next ∧ Follows r next := by
  obtain ⟨htokens, hversioned, hstores⟩ :
      next.site.world.store.tokens = r.site.world.store.tokens ∧ Versioned next.site.world ∧
        ∀ s ∈ r.site.world.store :: r.site.world.past,
          s ∈ next.site.world.store :: next.site.world.past := by
    rcases hworld with heq | ⟨s, hs, heq⟩
    · rw [heq]
      exact ⟨rfl, h.versioned, fun _ hs => hs⟩
    · rw [heq]
      exact ⟨hs, h.versioned.commit hs, stores_commit _ s⟩
  refine ⟨⟨hversioned, ?_, ?_, ?_, ?_⟩, fun use huse => by rw [hcounted]; exact huse, hstores⟩
  · rw [htokens]
    exact h.spec
  · unfold usesOf
    rw [htokens, hcounted]
    exact h.bounded
  · rw [htokens]
    exact h.present
  · rw [hcounted, hadmitted]
    exact h.admitted

/-- A status is written whose count is not lower, and which leaves room for the uses that are
counted with it. -/
theorem RollInv.writeStatus (h : RollInv origin r) (next : Roll ι)
    (hget : r.site.world.store.tokens.get key = some current)
    {status : LatticeEnrollmentTokenStatus} {uses : List (ι × NamespacedName)}
    (hworld : next.site.world = r.site.world.commit { r.site.world.store with
      tokens := r.site.world.store.tokens.put (withTokenStatus status current) })
    (hcounted : next.counted = r.counted ++ uses) (hadmitted : next.admitted = r.admitted)
    (huses : ∀ use ∈ uses, use.2 = key)
    (hcount : 0 < current.spec.usageLimit →
      current.status.usedCount + uses.length ≤ status.usedCount ∧
        (uses = [] ∨ current.status.usedCount + uses.length ≤ current.spec.usageLimit)) :
    RollInv origin next ∧ Follows r next := by
  have hkey : current.metadata.key = key := key_of_get hget
  have hold : ∀ k t, next.site.world.store.tokens.get k = some t →
      (k = key ∧ t = withTokenStatus status current) ∨
        (k ≠ key ∧ r.site.world.store.tokens.get k = some t) := by
    intro k t ht
    rw [hworld] at ht
    rcases get_put_cases ht with ⟨hk, rfl⟩ | ⟨hk, hget'⟩
    · exact .inl ⟨hk.trans hkey, rfl⟩
    · exact .inr ⟨fun heq => hk (heq.trans hkey.symm), hget'⟩
  have husesOf : ∀ k, usesOf next k = usesOf r k ++ uses.filter fun use => use.2 = k := by
    intro k
    simp [usesOf, hcounted]
  refine ⟨⟨?_, fun k t ht => ?_, fun k t ht hlimit => ?_, fun k t₀ ht₀ => ?_,
    fun i k start hmem => ?_⟩, ?_, ?_⟩
  · rw [hworld]
    exact h.versioned.commit_status hget status
  · rcases hold k t ht with ⟨rfl, rfl⟩ | ⟨-, hget'⟩
    · exact h.spec k current hget
    · exact h.spec k t hget'
  · rcases hold k t ht with ⟨rfl, rfl⟩ | ⟨hk, hget'⟩
    · obtain ⟨hused, hroom⟩ := hcount hlimit
      obtain ⟨hbefore, hwithin⟩ := h.bounded k current hget hlimit
      have hlength : ((usesOf next k).length : ℤ) ≤ (usesOf r k).length + uses.length := by
        rw [husesOf, length_append]
        have := length_filter_le (fun use : ι × NamespacedName => decide (use.2 = k)) uses
        omega
      change _ ≤ status.usedCount ∧ _ ≤ current.spec.usageLimit
      rcases hroom with rfl | hroom
      · simp at hlength hused
        omega
      · omega
    · -- the uses that were added are of another token
      have hnone : uses.filter (fun use => use.2 = k) = [] := by
        rw [filter_eq_nil_iff]
        intro use huse
        simpa [huses use huse] using hk.symm
      rw [husesOf, hnone, append_nil]
      exact h.bounded k t hget' hlimit
  · rw [hworld]
    by_cases hk : k = key
    · have hself := get_put_self r.site.world.store.tokens (withTokenStatus status current)
      rw [key_withTokenStatus, hkey, ← hk] at hself
      exact Option.isSome_iff_exists.mpr ⟨_, hself⟩
    · have hother : (r.site.world.store.tokens.put (withTokenStatus status current)).get k =
          r.site.world.store.tokens.get k := by
        apply get_put_ne
        rw [key_withTokenStatus, hkey]
        exact hk
      exact hother ▸ h.present k t₀ ht₀
  · rw [hadmitted] at hmem
    rw [hcounted]
    obtain ⟨hin, htime⟩ := h.admitted i k start hmem
    exact ⟨mem_append_left _ hin, htime⟩
  · intro use huse
    rw [hcounted]
    exact mem_append_left _ huse
  · rw [hworld]
    exact stores_commit _ _

/-- Calls that write no token. -/
def LeavesTokens : ServerCall → Prop
  | .updateTokenStatus _ | .patchTokenStatus _ _ => False
  | _ => True

theorem tokens_applyPeer {s s' : Store} {m : Managers} {obj p : LatticePeer}
    (h : applyPeer s m obj = .ok (p, s')) : s'.tokens = s.tokens := by
  unfold applyPeer at h
  split at h
  · cases h
    rfl
  · split_ifs at h
    cases h
    rfl

variable {c : ServerCall}

theorem world_leavesTokens (hc : LeavesTokens c) (ch : Choice) (site : Site) :
    (execServer c ch site).2.world = site.world ∨
      ∃ s, s.tokens = site.world.store.tokens ∧
        (execServer c ch site).2.world = site.world.commit s := by
  cases c with
  | updateTokenStatus | patchTokenStatus => exact hc.elim
  | applyPeer obj =>
    rcases write_cases ch site.world (applyPeer site.world.store
      (site.managers obj.metadata.key) obj) with hsame | ⟨p, s, hok, hcommit⟩
    · exact .inl hsame
    · exact .inr ⟨s, tokens_applyPeer hok, hcommit⟩
  | _ => exact .inl rfl

/-! ## What a caller knows -/

/-- What the contract asks of the calls of a party. -/
abbrev callsBy (origin : Store) (who : Party ι) :
    Contract (Party ι) ServerCall (Roll ι) Choice Empty :=
  (limitContract ι origin).callsOf who

/-- An assertion that a caller may keep while it writes no token. -/
def Carried (i : ι) (A : Roll ι → Prop) : Prop :=
  ∀ r r', A r → Follows r r' → r'.begun i = r.begun i → A r'

theorem Carried.stable {A : Roll ι → Prop} (hA : Carried i A) :
    (callsBy origin (.inl i)).Stable (.inl i) A :=
  fun r r' hr hrely => hA r r' hr hrely.1 (hrely.2 i rfl)

/-- The caller has counted a use of the token, in a call that began in time. -/
def HasCounted (origin : Store) (i : ι) (start : ℕ) (key : NamespacedName) (r : Roll ι) : Prop :=
  (i, key) ∈ r.counted ∧
    ∀ t₀, origin.tokens.get key = some t₀ → 0 < t₀.spec.usageLimit → start ≤ t₀.spec.expiry

variable {start : ℕ}

theorem carried_hasCounted : Carried i (HasCounted origin i start key) :=
  fun _ _ h hfollows _ => ⟨hfollows.counted _ h.1, h.2⟩

theorem carried_begun : Carried i fun r => r.begun i = start :=
  fun _ _ h _ hbegun => hbegun.trans h

/-- A copy of a token that a read may have returned. -/
def HasRead (latest : LatticeEnrollmentToken) (r : Roll ι) : Prop :=
  ∃ s ∈ r.site.world.store :: r.site.world.past,
    s.tokens.get latest.metadata.key = some latest

variable {latest : LatticeEnrollmentToken}

theorem carried_hasRead :
    Carried i fun r => r.begun i = start ∧ HasRead latest r := by
  intro r r' h hfollows hbegun
  obtain ⟨hstart, s, hs, hget⟩ := h
  exact ⟨hbegun.trans hstart, s, hfollows.stores s hs, hget⟩

/-- Counting a use, or failing to. -/
def Counts (origin : Store) (i : ι) (start : ℕ) (key : NamespacedName)
    (answer : Except GoError Unit) (r : Roll ι) : Prop :=
  r.begun i = start ∧ (answer = .ok () → HasCounted origin i start key r)

/-! ## Steps -/

variable [DecidableEq ι]

/-- The step of a caller that writes no token and is not its first. -/
theorem step_caller (hc : LeavesTokens c) (hnow : c ≠ .now) (ch : Choice) (h : RollInv origin r) :
    RollInv origin (enter (.call (.inl i) c) ch r).2 ∧
      Follows r (enter (.call (.inl i) c) ch r).2 ∧
      (enter (.call (.inl i) c) ch r).2.begun = r.begun := by
  have hcounted : usesCounted i c (execServer c ch r.site).1 = [] := by
    cases c with
    | updateTokenStatus | patchTokenStatus => exact hc.elim
    | _ => rfl
  have hbegun : (enter (.call (.inl i) c) ch r).2.begun = r.begun := by
    cases c with
    | now => exact absurd rfl hnow
    | _ => rfl
  obtain ⟨hinv, hfollows⟩ := h.sameTokens (enter (.call (.inl i) c) ch r).2
    (world_leavesTokens hc ch r.site) (by simp [enter, hcounted]) rfl
  exact ⟨hinv, hfollows, hbegun⟩

/-- A patch of the token controller. -/
theorem step_patch (key : NamespacedName) {base modified : LatticeEnrollmentToken} (ch : Choice)
    (h : RollInv origin r)
    (hmay : MayPatch r base modified) :
    RollInv origin (enter (.call (.inr key) (.patchTokenStatus base modified)) ch r).2 ∧
      Follows r (enter (.call (.inr key) (.patchTokenStatus base modified)) ch r).2 := by
  rcases write_cases ch r.site.world (r.site.world.store.patchTokenStatus base modified) with
    hsame | ⟨⟨⟩, s, hok, hcommit⟩
  · exact h.sameTokens _ (.inl hsame) rfl rfl
  · obtain ⟨current, hget, rfl⟩ := Store.patchTokenStatus_eq_ok hok
    refine h.writeStatus _ hget hcommit (append_nil _).symm rfl ?_ ?_
    · simp
    · intro _
      unfold MayPatch at hmay
      rw [hget] at hmay
      exact ⟨by simpa using hmay, .inl rfl⟩

/-- The update by which a caller counts a use, on a copy that it has read. -/
theorem step_count {ch : Choice} {answer : Except GoError Unit} (h : RollInv origin r)
    (hread : HasRead latest r) (hmay : MayCount r i (countedUse latest))
    (hstep : enter (.call (.inl i) (.updateTokenStatus (countedUse latest))) ch r = (answer, r')) :
    RollInv origin r' ∧ Follows r r' ∧
      (answer = .ok () → HasCounted origin i (r.begun i) latest.metadata.key r') := by
  obtain ⟨s₀, hs₀, hlatest⟩ := hread
  have hanswer : (execServer (.updateTokenStatus (countedUse latest)) ch r.site).1 = answer :=
    congrArg Prod.fst hstep
  obtain rfl := congrArg Prod.snd hstep
  have hcounted : (enter (.call (.inl i) (.updateTokenStatus (countedUse latest))) ch r).2.counted =
      r.counted ++ usesCounted i (.updateTokenStatus (countedUse latest)) answer := hanswer ▸ rfl
  -- if the update was carried out, the copy was the current token
  have hcarried : ∀ {s}, r.site.world.store.updateTokenStatus (countedUse latest) = .ok ((), s) →
      r.site.world.store.tokens.get latest.metadata.key = some latest ∧
        s = { r.site.world.store with
          tokens := r.site.world.store.tokens.put
            (withTokenStatus (countedUse latest).status latest) } ∧
        (0 < latest.spec.usageLimit → latest.status.usedCount < latest.spec.usageLimit ∧
          r.begun i ≤ latest.spec.expiry) := by
    intro s hok
    obtain ⟨current, hget, hversion, rfl⟩ := Store.updateTokenStatus_eq_ok hok
    obtain rfl : latest = current := (h.versioned.of_mem hs₀ hlatest hget).2 hversion
    unfold MayCount at hmay
    rw [hget] at hmay
    exact ⟨hget, rfl, hmay hversion⟩
  have hcount : (countedUse latest).status.usedCount = latest.status.usedCount + 1 := rfl
  cases answer with
  | error err =>
    have hnone := hcounted.trans (append_nil _)
    rcases write_cases ch r.site.world (r.site.world.store.updateTokenStatus (countedUse latest))
      with hsame | ⟨⟨⟩, s, hok, hcommit⟩
    · obtain ⟨hinv, hfollows⟩ := h.sameTokens _ (.inl hsame) hnone rfl
      exact ⟨hinv, hfollows, nofun⟩
    · -- the answer got lost
      obtain ⟨hget, rfl, hroom⟩ := hcarried hok
      obtain ⟨hinv, hfollows⟩ := h.writeStatus _ hget hcommit hcounted rfl nofun
        (fun _ => ⟨by simp only [usesCounted, length_nil, hcount]; omega, .inl rfl⟩)
      exact ⟨hinv, hfollows, nofun⟩
  | ok _ =>
    obtain ⟨s, hok, hcommit⟩ := write_ok hanswer
    obtain ⟨hget, rfl, hroom⟩ := hcarried hok
    obtain ⟨hinv, hfollows⟩ := h.writeStatus _ hget hcommit hcounted rfl
      (fun use huse => by rw [mem_singleton.mp huse]; rfl) fun hlimit => by
        simp only [usesCounted, length_singleton, hcount]
        omega
    refine ⟨hinv, hfollows, fun _ => ⟨?_, fun t₀ ht₀ hlimit => ?_⟩⟩
    · rw [hcounted]
      exact mem_append_right _ (mem_singleton_self _)
    · obtain ⟨t₁, ht₁, hspec⟩ := h.spec _ latest hget
      rw [ht₀] at ht₁
      cases ht₁
      rw [← hspec] at hlimit ⊢
      exact (hroom hlimit).2

/-! ## Callers -/

/-- Calls of `Register` that write no token. -/
def Quiet (c : ServerCall) : Prop := LeavesTokens c ∧ c ≠ .now

/-- What a part of a caller's program ensures. -/
abbrev CallerEnsures (origin : Store) (i : ι) {α : Type} (p : ServerProg α)
    (post : α → Roll ι → Prop) (r : Roll ι) : Prop :=
  (callsBy origin (.inl i)).wp (fun c => enter (.call (.inl i) c)) (.inl i) p post r

/-- A part of a caller's program that writes no token. -/
theorem wp_quiet {α : Type} {p : ServerProg α} {Q : α → Prop} {A : Roll ι → Prop}
    (hA : Carried i A) (hp : p.Within Quiet Q) (hr : A r) :
    CallerEnsures origin i p (fun a t => Q a ∧ A t) r := by
  apply wp_of_within hA.stable _ hp hr
  intro c hc t ch ht hinv _
  obtain ⟨hinv', hfollows, hbegun⟩ := step_caller hc.1 hc.2 ch hinv
  exact ⟨hinv', ⟨hfollows, fun j _ => congrFun hbegun j⟩, hA _ _ ht hfollows (congrFun hbegun i)⟩

theorem getToken_ok {ch : Choice} {site : Site}
    (h : (execServer (.getToken key) ch site).1 = .ok latest) :
    latest.metadata.key = key ∧
      ∃ s ∈ site.world.store :: site.world.past,
        s.tokens.get latest.metadata.key = some latest := by
  obtain ⟨-, hfound⟩ := Controller.Choice.read_eq_ok h
  cases hget : (site.world.seen ch.lag).tokens.get key with
  | none => simp [hget, found] at hfound
  | some t =>
    obtain rfl : t = latest := by simpa [hget, found] using hfound
    have hkey : t.metadata.key = key := key_of_get hget
    refine ⟨hkey, _, seen_mem site.world ch.lag, ?_⟩
    rw [hkey]
    exact hget

theorem wp_countUse (hr : r.begun i = start) :
    CallerEnsures origin i (countUse key) (Counts origin i start key) r := by
  apply wp_call _ carried_begun.stable hr
  intro t ht hinv ch _
  obtain ⟨hinv', hfollows, hbegun⟩ := step_caller (c := .getToken key) trivial
    (by simp) ch hinv
  refine ⟨hinv', ⟨hfollows, fun j _ => congrFun hbegun j⟩, ?_⟩
  have hstart : (enter (.call (.inl i) (.getToken key)) ch t).2.begun i = start :=
    (congrFun hbegun i).trans ht
  cases hanswer : (enter (.call (.inl i) (.getToken key)) ch t).1 with
  | error err => exact ⟨hstart, nofun⟩
  | ok latest =>
    obtain ⟨rfl, s, hs, hget⟩ := getToken_ok hanswer
    have hread : HasRead latest (enter (.call (.inl i) (.getToken latest.metadata.key)) ch t).2 :=
      ⟨s, hfollows.stores s hs, hget⟩
    apply wp_call _ carried_hasRead.stable ⟨hstart, hread⟩
    intro u hu hinv ch hmay
    obtain ⟨hinv', hfollows, hcounted⟩ := step_count hinv hu.2 (hmay i rfl) rfl
    exact ⟨hinv', ⟨hfollows, fun j _ => rfl⟩, hu.1, hu.1 ▸ hcounted⟩

theorem wp_retryOnConflict (n : ℕ) (hr : r.begun i = start) :
    CallerEnsures origin i (retryOnConflict (countUse key) n) (Counts origin i start key) r := by
  -- on the attempts that are left, none of which has been answered with success
  induction n generalizing r with
  | zero => exact wp_countUse hr
  | succ n ih =>
    apply wp_except (wp_countUse hr)
    · intro err t ht
      dsimp only
      split_ifs
      · exact ih ht.1
      · exact ht
    · intro _ t ht
      exact ht

theorem quiet_findToken (tokenStr : String) : (findToken tokenStr).Within Quiet fun _ => True := by
  have hlist : ∀ index, (ServerCall.listTokens index tokenStr).issue.Within Quiet fun _ => True :=
    fun index => ⟨⟨trivial, by simp⟩, fun _ => trivial⟩
  unfold findToken
  split_ifs
  · trivial
  · refine within_except (hlist .statusToken) (fun _ _ => trivial) fun byStatus _ => ?_
    have hagain : (orBySpec tokenStr byStatus).Within Quiet fun _ => True := by
      unfold orBySpec
      split_ifs
      · exact hlist .specToken
      · trivial
    exact within_except hagain (fun _ _ => trivial) fun _ _ => trivial

variable (keys : KeyReader)

/-- A peer is registered in the namespace that is asked for. -/
theorem quiet_registerPeer (ns : String) (e : PeerDto) :
    (registerPeer keys ns e).Within Quiet fun answer =>
      ∀ node, answer = .ok node → node.networkId = ns := by
  have hkey : (registrationKey keys ⟨ns, e.appId⟩).Within Quiet fun _ => True := by
    refine ⟨⟨trivial, by simp⟩, fun answer => ?_⟩
    cases answer with
    | ok node => trivial
    | error err =>
      dsimp only [Program.bind]
      split_ifs
      · exact ⟨⟨trivial, by simp⟩, fun _ => trivial⟩
      · trivial
  refine within_except hkey (fun _ _ _ h => nomatch h) fun key _ => ?_
  refine ⟨⟨trivial, by simp⟩, fun answer => ?_⟩
  cases answer with
  | error err => exact nofun
  | ok node =>
    intro node h
    cases h
    rfl

/-- Whoever gets past the check of the token has counted a use. -/
theorem wp_checkToken (tokenStr : String) (hr : r.begun i = start) :
    CallerEnsures origin i (checkToken tokenStr)
      (fun answer t => ∀ token, answer = .ok token →
        HasCounted origin i start token.metadata.key t) r := by
  refine wp_except (wp_quiet carried_begun (quiet_findToken tokenStr) hr)
    (fun _ _ _ _ h => nomatch h) fun token t ht => ?_
  refine wp_except (wp_retryOnConflict 4 ht.2) (fun _ _ _ _ h => nomatch h) ?_
  intro _ u hu token' htoken
  cases htoken
  exact hu.2 rfl

theorem wp_registerWith (e : PeerDto) (hr : r.begun i = start) :
    CallerEnsures origin i (registerWith keys e)
      (fun answer t => ∀ token node, answer = .ok (token, node) →
        HasCounted origin i start token.metadata.key t) r := by
  refine wp_except (wp_checkToken e.token hr) (fun _ _ _ _ _ h => nomatch h)
    fun token t ht => ?_
  refine wp_except (wp_quiet carried_hasCounted
    (quiet_registerPeer keys token.metadata.ns e) (ht token rfl)) (fun _ _ _ _ _ h => nomatch h) ?_
  intro node u hu token' node' h
  cases h
  exact hu.2

/-- A call that ends in an admission has counted a use. -/
theorem wp_enroll (e : PeerDto) :
    CallerEnsures origin i (enroll keys e)
      (fun answer t => ∀ start key, answer = some (start, key) →
        HasCounted origin i start key t) r := by
  have htrivial : Carried i fun _ : Roll ι => True := fun _ _ _ _ _ => trivial
  apply wp_call _ htrivial.stable trivial
  intro t _ hinv ch _
  obtain ⟨hinv', hfollows⟩ := hinv.sameTokens (enter (.call (.inl i) .now) ch t).2 (.inl rfl)
    (by simp [enter, usesCounted]) rfl
  refine ⟨hinv', ⟨hfollows, fun j hj => ?_⟩, ?_⟩
  · have hne : j ≠ i := fun heq => hj (congrArg Sum.inl heq.symm)
    exact Function.update_of_ne hne _ _
  · have hstart : (enter (.call (.inl i) .now) ch t).2.begun i = ch.time :=
      Function.update_self _ _ _
    apply wp_bind.mpr
    refine wp_except (wp_registerWith keys e hstart) (fun _ _ _ _ _ h => nomatch h) ?_
    intro admission u hu start key h
    cases h
    exact hu _ _ rfl

/-- The note of an admission. -/
theorem wp_admit {answer : Admission}
    (h : ∀ start key, answer = some (start, key) → HasCounted origin i start key r) :
    (limitContract ι origin).wp enter (.inl i) (.call (.done (.inl i) answer) fun _ => .ret ())
      (fun _ _ => True) r := by
  have hstable : (limitContract ι origin).Stable (.inl i) fun t : Roll ι =>
      ∀ start key, answer = some (start, key) → HasCounted origin i start key t := by
    intro t t' ht hrely start key hanswer
    exact carried_hasCounted t t' (ht start key hanswer) hrely.1 (hrely.2 i rfl)
  apply wp_call _ hstable h
  intro t ht hinv ch _
  cases answer with
  | none => exact ⟨hinv, ⟨Follows.refl t, fun _ _ => rfl⟩, trivial⟩
  | some admission =>
    obtain ⟨start, key⟩ := admission
    refine ⟨⟨hinv.versioned, hinv.spec, hinv.bounded, hinv.present, fun j k begun hmem => ?_⟩,
      ⟨⟨fun _ h => h, fun _ h => h⟩, fun _ _ => rfl⟩, trivial⟩
    rcases mem_append.mp hmem with hold | hnew
    · exact hinv.admitted j k begun hold
    · rw [mem_singleton] at hnew
      cases hnew
      exact ht start key rfl

/-! ## Reconcilers -/

/-- Calls of the token controller. -/
def OfController : ServerCall → Prop
  | .updateTokenStatus _ => False
  | _ => True

theorem OfController.cases (hc : OfController c) :
    (∃ base modified, c = .patchTokenStatus base modified) ∨ LeavesTokens c := by
  cases c with
  | updateTokenStatus obj => exact hc.elim
  | patchTokenStatus base modified => exact .inl ⟨base, modified, rfl⟩
  | _ => exact .inr trivial

theorem within_updateOr {token : LatticeEnrollmentToken}
    {updateFunc : LatticeEnrollmentToken → LatticeEnrollmentTokenStatus} {due : Bool}
    {next : ServerProg (Except GoError Unit)} (hnext : next.Within OfController fun _ => True) :
    (updateOr token updateFunc due next).Within OfController fun _ => True := by
  have hupdate : (updateTokenStatus token updateFunc).Within OfController fun _ => True := by
    unfold updateTokenStatus
    split_ifs
    · trivial
    · refine ⟨trivial, fun answer => ?_⟩
      cases answer with
      | ok _ => trivial
      | error err =>
        dsimp only [Program.bind]
        split_ifs
        · trivial
        · trivial
  unfold updateOr
  split_ifs
  · refine within_except hupdate (fun _ _ => trivial) fun changed _ => ?_
    cases changed with
    | true => trivial
    | false => exact hnext
  · exact hnext

theorem within_reconcileToken (req : NamespacedName) :
    (reconcileToken req).Within OfController fun _ => True := by
  refine ⟨trivial, fun answer => ?_⟩
  cases answer with
  | error err =>
    dsimp only [Program.bind]
    split_ifs
    · trivial
    · trivial
  | ok token =>
    dsimp only [Program.bind]
    split_ifs
    · trivial
    · exact ⟨trivial, fun _ => within_updateOr (within_updateOr (within_updateOr trivial))⟩

theorem wp_tidyToken :
    (callsBy origin (.inr key)).wp (fun c => enter (.call (.inr key) c)) (.inr key)
      (tidyToken key) (fun _ _ => True) r := by
  have hprogram : (tidyToken key).Within OfController fun _ => True :=
    within_bind (within_reconcileToken key) fun _ _ => trivial
  have htrivial : (callsBy origin (.inr key)).Stable (.inr key) fun _ : Roll ι => True :=
    fun _ _ _ _ => trivial
  apply wp_mono (fun _ _ _ => trivial) (wp_of_within htrivial _ hprogram trivial)
  intro c hc t ch _ hinv hmay
  rcases hc.cases with ⟨base, modified, rfl⟩ | hleaves
  · obtain ⟨hinv', hfollows⟩ := step_patch key ch hinv hmay
    exact ⟨hinv', ⟨hfollows, fun _ _ => rfl⟩, trivial⟩
  · obtain ⟨hinv', hfollows⟩ := hinv.sameTokens (enter (.call (.inr key) c) ch t).2
      (world_leavesTokens hleaves ch t.site) rfl rfl
    exact ⟨hinv', ⟨hfollows, fun _ _ => rfl⟩, trivial⟩

/-! ## Everybody -/

theorem limit_respects (dto : ι → PeerDto) (origin : Store) :
    (limitContract ι origin).Respects (enrollment keys dto) where
  program who r _ _ := by
    cases who with
    | inl i =>
      exact wp_journal
        (wp_mono (fun _ _ h => wp_admit h) (wp_enroll keys (dto i)))
    | inr key =>
      apply wp_journal
      apply wp_mono _ wp_tidyToken
      intro answer t _
      have htrivial : (limitContract ι origin).Stable (.inr key) fun _ : Roll ι => True :=
        fun _ _ _ _ => trivial
      apply wp_call _ htrivial trivial
      intro u _ hinv ch _
      exact ⟨hinv, ⟨Follows.refl u, fun _ _ => rfl⟩, trivial⟩
  stable _ _ _ _ _ := trivial
  compat who who' r r' hne hguar := by
    refine ⟨hguar.1, fun i hi => hguar.2 i fun heq => hne ?_⟩
    rw [heq, hi]
  env e := nomatch e

/-! ## The theorem -/

/-- **Limits along a run.** If uses are counted only within the limit and in time, and the count
is never lowered, then every token with a usage limit admits at most that many nodes, and none
whose call began after it expired. -/
theorem limits_along (dto : ι → PeerDto) (site : Site)
    (hversioned : Versioned site.world)
    (hcount : ∀ k t, site.world.store.tokens.get k = some t → 0 ≤ t.status.usedCount)
    (schedule : List (Action (Party ι) Choice Empty))
    (halong : (limitContract ι site.world.store).Along (enrollment keys dto)
      (Workers.idle { site := site }) schedule) (key : NamespacedName)
    (token : LatticeEnrollmentToken) (htoken : site.world.store.tokens.get key = some token)
    (hlimit : 0 < token.spec.usageLimit) :
    (∀ apps : List String, apps.Nodup →
      (∀ app ∈ apps, ∃ i start, (i, key, start) ∈ (rollAfter keys dto site schedule).admitted ∧
        (dto i).appId = app) → (apps.length : ℤ) ≤ token.spec.usageLimit) ∧
    ∀ i start, (i, key, start) ∈ (rollAfter keys dto site schedule).admitted →
      start ≤ token.spec.expiry := by
  have hstart : RollInv site.world.store ({ site := site } : Roll ι) :=
    { versioned := hversioned
      spec := fun k t ht => ⟨t, ht, rfl⟩
      bounded := fun k t ht hlimit => by simpa [usesOf] using ⟨hcount k t ht, hlimit.le⟩
      present := fun k t ht => by simp [ht]
      admitted := fun i k start h => by simp at h }
  have hinv : RollInv site.world.store (rollAfter keys dto site schedule) :=
    ((sound_idle hstart fun _ => trivial).run
      (limit_respects keys dto site.world.store) halong).inv
  constructor
  · intro apps hnodup happs
    -- every admitted node has its own counted use
    have hsubset : apps ⊆ ((usesOf (rollAfter keys dto site schedule) key).map
        fun use => (dto use.1).appId) := by
      intro app happ
      obtain ⟨i, start, hmem, rfl⟩ := happs app happ
      have huse : (i, key) ∈ usesOf (rollAfter keys dto site schedule) key :=
        mem_filter.mpr ⟨(hinv.admitted i key start hmem).1, by simp⟩
      exact mem_map.mpr ⟨(i, key), huse, rfl⟩
    have hlength := (hnodup.subperm hsubset).length_le
    rw [length_map] at hlength
    obtain ⟨current, hcurrent⟩ := Option.isSome_iff_exists.mp (hinv.present key token htoken)
    obtain ⟨t₀, ht₀, hspec⟩ := hinv.spec key current hcurrent
    rw [htoken] at ht₀
    cases ht₀
    have hbounded := (hinv.bounded key current hcurrent (by rw [hspec]; exact hlimit)).2
    rw [hspec] at hbounded
    omega
  · intro i start hmem
    exact (hinv.admitted i key start hmem).2 token htoken hlimit

end

/-! ## Two nodes with a token for one -/

namespace OneUse

def key : NamespacedName := ⟨"wf-1", "invite"⟩

/-- A token for one node, until time 10. -/
def token : LatticeEnrollmentToken :=
  { metadata := { ns := "wf-1", name := "invite" }
    spec := { token := "t", usageLimit := 1, expiry := 10 }
    status := { token := "t" } }

def site : Site := { world := { store := { tokens := .ofList [token] } } }

def keys : KeyReader := ⟨fun text => .ok { privateKey := text }⟩

/-- Two nodes with this token. -/
def dto (first : Bool) : PeerDto := { appId := if first then "a" else "b", token := "t" }

/-- One call after the other, each of which begins at the given time. -/
def call (first : Bool) (time : ℕ) : List (Action (Party Bool) Choice Empty) :=
  [.start (.inl first)] ++
    List.replicate 9 (.advance (.inl first) { time := time, key := { privateKey := "k" } })

def outcome : Roll Bool := rollAfter keys dto site (call true 20 ++ call false 30)

theorem site_versioned : Versioned site.world := by
  intro s hs
  simp [site] at hs

theorem site_count :
    ∀ k t, site.world.store.tokens.get k = some t → 0 ≤ t.status.usedCount := by
  intro k t ht
  rcases get_put_cases ht with ⟨-, rfl⟩ | ⟨-, hnone⟩
  · simp [token]
  · simp [empty, Table.get] at hnone

end OneUse

open OneUse in
/-- **A token for one node admits two, after it has expired.** -/
theorem admits_beyond_limit :
    site.world.store.tokens.get key = some token ∧
      token.spec.usageLimit = 1 ∧ token.spec.expiry = 10 ∧
      outcome.admitted = [(true, key, 20), (false, key, 30)] ∧
      (dto true).appId ≠ (dto false).appId := by
  have hadmitted : outcome.admitted = [(true, key, 20), (false, key, 30)] := by decide +kernel
  exact ⟨rfl, rfl, rfl, hadmitted, by decide⟩

open OneUse in
/-- One node that registers in time is within the limit. -/
theorem limits_along_single :
    (true, key, 5) ∈ (rollAfter keys dto site (call true 5)).admitted ∧
      5 ≤ token.spec.expiry := by
  have halong : (limitContract Bool site.world.store).Along (enrollment keys dto)
      (Workers.idle { site := site }) (call true 5) := by
    decide +kernel
  have hadmitted : (true, key, 5) ∈ (rollAfter keys dto site (call true 5)).admitted := by
    decide +kernel
  exact ⟨hadmitted, (limits_along keys dto site site_versioned site_count _ halong key token rfl
    (by decide)).2 true 5 hadmitted⟩

end Wireflow.Server
