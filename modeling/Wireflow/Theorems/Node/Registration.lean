/-
# Registration on the device

What `RegisterPeer` and `RemovePeer` report is true of the device, whichever of its operations
fail, exactly for the sequences of calls that remove a key before they register it again. A second
registration is answered from the flag, and then neither the failure of the first nor other
`AllowedIPs` are noticed.
-/

import Mathlib.Data.List.Induction
import Wireflow.Agent.Configurator
import Wireflow.Semantics.Steps

namespace Wireflow.Agent

open Semantics List

namespace Configurator

variable {P : Type} [DecidableEq P] {calls front : List (ConfiguratorCall P)} {k : String}
  {events : List (ConfiguratorCall P × Bool)} {c : Configurator P}

def step (c : Configurator P) (e : ConfiguratorCall P × Bool) : Configurator P := (c.call e.1 e.2).2

/-- The device has an entry with these addresses. -/
def Holds (c : Configurator P) (k : String) (ips : List P) : Prop :=
  ∃ held, c.device k = some held ∧ ∀ p, p ∈ held ↔ p ∈ ips

/-- What a call reports is true of the device. -/
def Truthful (c : Configurator P) : ConfiguratorCall P × Bool → Prop
  | (.registerPeer k ips, works) =>
      (c.call (.registerPeer k ips) works).1 = true →
        (c.step (.registerPeer k ips, works)).Holds k ips
  | (.removePeer k, works) =>
      (c.call (.removePeer k) works).1 = true → (c.step (.removePeer k, works)).device k = none
  | (.setEndpoint .., _) => True

/-- The last that was asked about a key is to register it. -/
def Registered (calls : List (ConfiguratorCall P)) (k : String) : Prop :=
  ∃ front ips back, calls = front ++ .registerPeer k ips :: back ∧ .removePeer k ∉ back

/-- No key is registered again before it is removed. -/
def RemovedFirst (calls : List (ConfiguratorCall P)) : Prop :=
  ∀ front k ips back, calls = front ++ .registerPeer k ips :: back → ¬Registered front k

omit [DecidableEq P] in
theorem registered_snoc (e : ConfiguratorCall P) :
    Registered (calls ++ [e]) k ↔
      (∃ ips, e = .registerPeer k ips) ∨ (e ≠ .removePeer k ∧ Registered calls k) := by
  constructor
  · rintro ⟨front, ips, back, h, hnot⟩
    rcases eq_nil_or_concat' back with rfl | ⟨back, last, rfl⟩
    · exact .inl ⟨ips, by simpa using (append_inj' h rfl).2⟩
    · rw [← cons_append, ← append_assoc] at h
      obtain ⟨hcalls, hlast⟩ := append_inj' h rfl
      simp only [mem_append, mem_singleton, not_or] at hnot
      cases hlast
      exact .inr ⟨Ne.symm hnot.2, front, ips, back, hcalls, hnot.1⟩
  · rintro (⟨ips, rfl⟩ | ⟨hne, front, ips, back, rfl, hnot⟩)
    · exact ⟨calls, ips, [], rfl, not_mem_nil⟩
    · refine ⟨front, ips, back ++ [e], by simp, ?_⟩
      simp [hnot, Ne.symm hne]

/-- One call moves the flag of its own key only. -/
theorem peers_step (e : ConfiguratorCall P × Bool) : (c.step e).peers k ↔
    (∃ ips, e.1 = .registerPeer k ips) ∨ (e.1 ≠ .removePeer k ∧ c.peers k) := by
  obtain ⟨e, works⟩ := e
  cases e with
  | registerPeer k' ips =>
    by_cases hk : k' = k
    · subst hk
      by_cases hflag : c.peers k' <;> simp [step, call, hflag]
    · by_cases hflag : c.peers k' <;>
        simp [step, call, hflag, hk, Function.update_of_ne (Ne.symm hk)]
  | setEndpoint k' endpoint keepalive ips => simp [step, call]
  | removePeer k' =>
    by_cases hk : k' = k
    · simp [step, call, hk]
    · simp [step, call, hk, Function.update_of_ne (Ne.symm hk)]

/-- The flags follow the calls, whether the device works or not. -/
theorem peers_foldl (hc : c.peers = fun _ => false) :
    (events.foldl step c).peers k ↔ Registered (events.map Prod.fst) k := by
  induction events using reverseRecOn with
  | nil => simp [hc, Registered]
  | append_singleton events e ih =>
    rw [foldl_append, foldl_cons, foldl_nil, peers_step, ih, map_append,
      map_singleton, registered_snoc]

/-- A call is truthful unless it registers a key whose flag is set. -/
theorem truthful_of_unflagged {e : ConfiguratorCall P × Bool}
    (h : ∀ k ips, e.1 = .registerPeer k ips → ¬c.peers k) : c.Truthful e := by
  obtain ⟨e, works⟩ := e
  cases e with
  | registerPeer k ips =>
    intro hnil
    simp only [call, step, if_neg (h k ips rfl)] at hnil ⊢
    exact ⟨ips, by simp [write, hnil], fun p => Iff.rfl⟩
  | setEndpoint k endpoint keepalive ips => trivial
  | removePeer k =>
    intro hnil
    simp only [call, step] at hnil ⊢
    simp [hnil]

/-- A device that never works stays empty. -/
theorem device_foldl_failing (calls : List (ConfiguratorCall P)) (c : Configurator P) :
    ((calls.map fun e => (e, false)).foldl step c).device = c.device := by
  induction calls generalizing c with
  | nil => rfl
  | cons e rest ih =>
    rw [map_cons, foldl_cons, ih]
    cases e with
    | registerPeer k ips => by_cases hflag : c.peers k <;> simp [step, call, hflag]
    | setEndpoint k endpoint keepalive ips => rfl
    | removePeer k => rfl

/-- **Registration.** Whatever the device holds at first and whichever operations fail, all that
is reported is true, exactly if no key is registered again before it is removed. -/
theorem registration_iff (calls : List (ConfiguratorCall P)) :
    (∀ (device : String → Option (List P)) (events : List (ConfiguratorCall P × Bool)),
        events.map Prod.fst = calls → AlongSteps step Truthful { device := device } events) ↔
      RemovedFirst calls := by
  constructor
  · rintro h front k ips back rfl hregistered
    -- nothing works: the second registration of the key is reported, but the device is empty
    have hfail := h (fun _ => none) ((front ++ .registerPeer k ips :: back).map fun e => (e, false))
      (by simp [Function.comp_def])
    rw [map_append, alongSteps_append] at hfail
    have hflag : ((front.map fun e => (e, false)).foldl step ({} : Configurator P)).peers k :=
      (peers_foldl rfl).mpr (by simpa [Function.comp_def] using hregistered)
    have htrue := hfail.2.1
    simp only [Truthful, call, step, if_pos hflag, Holds, device_foldl_failing] at htrue
    obtain ⟨_, hnone, -⟩ := htrue trivial
    cases hnone
  · rintro h device events rfl
    suffices hrest : ∀ front rest, events = front ++ rest →
        AlongSteps step Truthful (front.foldl step { device := device }) rest from
      hrest [] events rfl
    intro front rest hsplit
    induction rest generalizing front with
    | nil => trivial
    | cons e rest ih =>
      refine ⟨truthful_of_unflagged fun k ips he => ?_, ?_⟩
      · rw [peers_foldl rfl]
        exact h _ k ips (rest.map Prod.fst) (by rw [hsplit, map_append, map_cons, he])
      · have hnext := ih (front ++ [e]) (by rw [hsplit, append_assoc, singleton_append])
        rwa [foldl_append] at hnext

/-- A configurator whose first registration has failed on the device. -/
def failedOnce : Configurator Unit := step {} (.registerPeer "k" [()], false)

/-- The second registration is reported all the same. -/
theorem registered_in_vain :
    (failedOnce.call (.registerPeer "k" [()]) true).1 = true ∧
      (failedOnce.step (.registerPeer "k" [()], true)).device "k" = none := ⟨rfl, rfl⟩

end Configurator

end Wireflow.Agent
