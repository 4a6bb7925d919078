/-
# What a failed creation of a workspace leaves

`AddWorkspace` creates the namespace inside its transaction. A failure before that leaves nothing.
Once the namespace is there, nothing on the way out removes it: the rollback covers the database
only.
-/

import Wireflow.Theorems.Server.Transactions

namespace Wireflow.Server

open Semantics Program
open Wireflow.Api

/-! ## The calls of the transaction -/

variable (ns : String)

theorem staysInside_createRoleBindings (wsId : String) (roles : List String) :
    StaysInside (createRoleBindings ns wsId roles) := by
  induction roles with
  | nil => trivial
  | cons role rest ih =>
    exact (Confined.kube (.createRoleBinding _) trivial).mapError.unwrap fun _ => ih

theorem staysInside_createMissing {α : Type} {text : String} {found : Except GoError α}
    {create : OfficeProg (Except GoError Unit)} (h : StaysInside create) :
    StaysInside (createMissing text found create) := by
  cases found with
  | ok a => trivial
  | error err =>
    unfold createMissing
    dsimp only
    split_ifs
    · exact h.mapError
    · trivial

theorem staysInside_createDefaultNetwork :
    StaysInside (createDefaultNetwork ns) :=
  (Confined.kube (.getNetwork _) trivial).bind fun _ =>
    staysInside_createMissing (Confined.kube (.createNetwork _) trivial)

theorem staysInside_createDefaultPolicy : StaysInside (createDefaultPolicy ns) :=
  (Confined.kube (.getPolicy _) trivial).bind fun _ =>
    staysInside_createMissing (Confined.kube (.createPolicy _) trivial)

theorem staysInside_fillNamespace (wsId : String) : StaysInside (fillNamespace wsId) :=
  (Confined.kube (.createQuota _) trivial).mapError.unwrap fun _ =>
    (staysInside_createRoleBindings _ _ _).unwrap fun _ =>
      (staysInside_createDefaultNetwork _).mapError.unwrap fun _ =>
        (staysInside_createDefaultPolicy _).mapError

variable (userId : String)

theorem staysInside_addCreator (wsId : String) : StaysInside (addCreator userId wsId) := by
  unfold addCreator
  split_ifs
  · trivial
  · exact (staysInside_db _).unwrap fun _ => trivial

theorem staysInside_addWorkspaceTx (row : Workspace) :
    StaysInside (addWorkspaceTx userId row) :=
  (staysInside_db _).unwrap fun _ => (staysInside_db _).unwrap fun _ =>
    ((Confined.kube (.createNamespace _) trivial).unwrap fun _ =>
      staysInside_fillNamespace _).unwrap fun _ => staysInside_addCreator _ _

/-! ## When the namespace is made -/

/-- The transaction gets to the namespace, and its creation takes effect. -/
structure NamespaceMade (d : Desk) : Prop where
  inserted : (d.turns 0).fault = none ∧
    d.office.view.workspaces.lookup (d.turns 0).fresh = none
  updated : (d.turns 1).fault = none
  free : namespaceOf (d.turns 0).fresh ∉ d.office.cluster.namespaces
  made : (d.turns 2).fault = none ∨ (d.turns 2).lost = true

/-- A request changes nothing, or does what it is for. -/
theorem run_createNamespace_cases (ns : String) (d : Desk) :
    let r := (KubeCall.createNamespace ns).issue.run attend d
    (ns ∉ d.office.cluster.namespaces ∧ ((d.turns 0).fault = none ∨ (d.turns 0).lost = true) ∧
        ns ∈ r.2.office.cluster.namespaces) ∨
      (¬(ns ∉ d.office.cluster.namespaces ∧
          ((d.turns 0).fault = none ∨ (d.turns 0).lost = true)) ∧
        ∃ err, r = (.error err, d.next d.office)) := by
  intro r
  have hr : r = (((d.turns 0).answer d.office.cluster
        (d.office.cluster.createNamespace ns)).1,
      d.next { d.office with cluster :=
        ((d.turns 0).answer d.office.cluster (d.office.cluster.createNamespace ns)).2 }) := rfl
  by_cases hns : ns ∈ d.office.cluster.namespaces
  · rw [hr, Cluster.createNamespace, if_pos hns]
    exact .inr ⟨fun h => h.1 hns, _, rfl⟩
  · rw [hr, Cluster.createNamespace, if_neg hns]
    cases hfault : (d.turns 0).fault with
    | none => exact .inl ⟨hns, .inl rfl, by simp [Turn.answer, hfault]⟩
    | some err =>
      by_cases hlost : (d.turns 0).lost = true
      · exact .inl ⟨hns, .inr hlost, by simp [Turn.answer, hfault, hlost]⟩
      · refine .inr ⟨by simp [hlost], err, ?_⟩
        simp [Turn.answer, hfault, hlost]

/-- From `d` on, the namespace is made and there at the end; or it is not made, and the end is an
error in an untouched cluster. -/
def Makes {α : Type} (made : Prop) (d : Desk) (r : Except GoError α × Desk) : Prop :=
  (made ∧ ns ∈ r.2.office.cluster.namespaces) ∨
    (¬made ∧ r.2.office.cluster = d.office.cluster ∧ ∃ err, r.1 = .error err)

/-- A call to the database, and what follows if it succeeds. -/
theorem makes_db {α : Type} {ns : String} {made : Prop} {d : Desk} {c : DbCall}
    {next : c.Res → OfficeProg (Except GoError α)}
    (hmade : made → (d.turns 0).fault = none ∧
      ∃ value db', c.apply (d.turns 0).fresh d.office.view = .ok (value, db'))
    (hnext : ∀ value db', c.apply (d.turns 0).fresh d.office.view = .ok (value, db') →
      (d.turns 0).fault = none → Makes ns made (d.next (d.office.setView db'))
        ((next value).run attend (d.next (d.office.setView db')))) :
    Makes ns made d ((c.issue.unwrap next).run attend d) := by
  cases hc : (c.issue.run attend d).1 with
  | error err =>
    rw [run_unwrap_error hc]
    refine .inr ⟨fun h => ?_, Office.cluster_setView _ _, err, rfl⟩
    obtain ⟨hfault, value, db', happly⟩ := hmade h
    rw [run_db_of_apply hfault happly] at hc
    cases hc
  | ok value =>
    obtain ⟨db', happly, hfault, hrun⟩ := run_db_eq_ok hc
    rw [run_unwrap_ok hc, hrun]
    rcases hnext value db' happly hfault with hends | ⟨hnot, hsame, herr⟩
    · exact .inl hends
    · exact .inr ⟨hnot, hsame.trans (Office.cluster_setView _ _), herr⟩

/-- The transaction once the row is there with its namespace. -/
theorem makes_initializeTenant (wsId : String) (d : Desk) :
    Makes (namespaceOf wsId) (namespaceOf wsId ∉ d.office.cluster.namespaces ∧
        ((d.turns 0).fault = none ∨ (d.turns 0).lost = true)) d
      (((initializeTenant wsId).unwrap fun _ => addCreator userId wsId).run attend d) := by
  rcases run_createNamespace_cases (namespaceOf wsId) d with ⟨hfree, hmade, hns⟩ | ⟨hnot, err, hrun⟩
  · refine .inl ⟨⟨hfree, hmade⟩, ?_⟩
    have hkeeps : ∀ c t o, OfficeCall.Inside c → namespaceOf wsId ∈ o.cluster.namespaces →
        namespaceOf wsId ∈ (execOffice c t o).2.cluster.namespaces :=
      fun c t o hc => mem_namespaces_execOffice hc t
    have htenant := run_unwrap_of_staysInside (fun _ => staysInside_fillNamespace wsId) hkeeps hns
    exact run_unwrap_of_staysInside (fun _ => staysInside_addCreator userId wsId) hkeeps htenant
  · have htenant : (initializeTenant wsId).run attend d = (.error err, d.next d.office) := by
      rw [initializeTenant, run_unwrap_error (congrArg Prod.fst hrun), hrun]
    rw [run_unwrap_error (congrArg Prod.fst htenant), htenant]
    exact .inr ⟨hnot, rfl, err, rfl⟩

/-- **Where the transaction ends.** Before the namespace, with an error and an untouched cluster; or
after it, and then the namespace is there at the end. -/
theorem makes_addWorkspaceTx (row : Workspace) (d : Desk) :
    Makes (namespaceOf (d.turns 0).fresh) (NamespaceMade d) d
      ((addWorkspaceTx userId row).run attend d) := by
  apply makes_db
  · intro h
    simp [h.inserted.1, DbCall.apply, created, Sql.Rows.create, h.inserted.2]
  intro wsId db₁ happly hfault
  obtain ⟨hfresh, rfl, -⟩ := created_eq_ok happly
  apply makes_db (fun h => ⟨h.updated, _, _, rfl⟩)
  intro _ db₂ _ hupdated
  have hiff : NamespaceMade d ↔ namespaceOf (d.turns 0).fresh ∉ d.office.cluster.namespaces ∧
      ((d.turns 2).fault = none ∨ (d.turns 2).lost = true) :=
    ⟨fun h => ⟨h.free, h.made⟩, fun h => ⟨⟨hfault, hfresh⟩, hupdated, h.1, h.2⟩⟩
  have hrest := makes_initializeTenant userId (d.turns 0).fresh
    ((d.next (d.office.setView db₁)).next ((d.next (d.office.setView db₁)).office.setView db₂))
  simpa [hiff, Desk.next, Office.cluster_setView] using hrest

/-! ## The whole call -/

/-- The desk after as many turns. -/
def Desk.skip (d : Desk) (n : ℕ) : Desk := { d with turns := fun k => d.turns (k + n) }

/-- The turns that the check of the slug takes. -/
def checkTurns : ℕ := if userId = "" then 0 else 1

/-- The slug is free. -/
def SlugFree (slug : String) (d : Desk) : Prop :=
  userId ≠ "" →
    (d.turns 0).fault = none ∧ d.office.view.existsByUserAndSlug userId slug = false

/-- The check lets the call go on, or ends it. Either way nothing has changed. -/
theorem run_checkSlug_cases (slug text : String) (d : Desk) :
    (SlugFree userId slug d ∧
        (checkSlug userId slug text).run attend d = (.ok (), d.skip (checkTurns userId))) ∨
      (¬SlugFree userId slug d ∧
        ∃ err, (checkSlug userId slug text).run attend d = (.error err, d.skip 1)) := by
  unfold checkSlug checkTurns
  by_cases huser : userId = ""
  · rw [if_pos huser, if_pos huser]
    exact .inl ⟨fun h => absurd huser h, rfl⟩
  · rw [if_neg huser, if_neg huser]
    cases hquery : ((DbCall.existsByUserAndSlug userId slug).issue.run attend d).1 with
    | error err =>
      rw [run_unwrap_error hquery, run_query rfl]
      refine .inr ⟨fun h => ?_, err, rfl⟩
      rw [run_db_of_apply (h huser).1 rfl] at hquery
      cases hquery
    | ok taken =>
      obtain ⟨db', happly, hfault, -⟩ := run_db_eq_ok hquery
      cases happly
      rw [run_unwrap_ok hquery, run_query rfl]
      cases htaken : d.office.view.existsByUserAndSlug userId slug with
      | false => exact .inl ⟨fun _ => ⟨hfault, htaken⟩, rfl⟩
      | true =>
        refine .inr ⟨fun h => ?_, _, rfl⟩
        rw [(h huser).2] at htaken
        cases htaken

/-! ## All or nothing -/

/-- The call gets to the creation of the namespace, and that takes effect. -/
def ReachesNamespace (slug : String) (d : Desk) : Prop :=
  let d₁ := d.skip (checkTurns userId)
  SlugFree userId slug d ∧ (d₁.turns 0).fault = none ∧ NamespaceMade (d₁.next d₁.office.begun)

/-- If `AddWorkspace` returns an error, there are no new rows and the cluster is as before. -/
def AllOrNothing (username slug : String) (dto : WorkspaceDto) (d : Desk) : Prop :=
  let r := (addWorkspace userId username slug dto).run attend d
  ∀ err, r.1 = .error err →
    r.2.office.db.workspaces = d.office.db.workspaces ∧
      r.2.office.db.members = d.office.db.members ∧ r.2.office.cluster = d.office.cluster

/-- The two ways in which `AddWorkspace` ends. -/
theorem addWorkspace_cases (userId username slug : String) (dto : WorkspaceDto) (d : Desk) :
    let r := (addWorkspace userId username slug dto).run attend d
    (ReachesNamespace userId slug d ∧ r.2.office.cluster ≠ d.office.cluster) ∨
      (¬ReachesNamespace userId slug d ∧ r.2.office.db = d.office.db ∧
        r.2.office.cluster = d.office.cluster) := by
  intro r
  rcases run_checkSlug_cases userId slug dto.slug d with ⟨hfree, hcheck⟩ | ⟨hnot, err, hcheck⟩
  · have hr : r = _ := run_unwrap_ok (congrArg Prod.fst hcheck)
    rw [hcheck] at hr
    rw [hr]
    generalize newWorkspace username slug dto = row
    generalize hd₁ : d.skip (checkTurns userId) = d₁
    have hoffice : d₁.office = d.office := by rw [← hd₁]; rfl
    have hreaches : ReachesNamespace userId slug d ↔
        (d₁.turns 0).fault = none ∧ NamespaceMade (d₁.next d₁.office.begun) := by
      rw [ReachesNamespace, hd₁]
      exact and_iff_right hfree
    rw [hreaches]
    cases run_transaction (staysInside_addWorkspaceTx userId row) d₁ with
    | notBegun err hfault hr hsame =>
      refine .inr ⟨fun h => ?_, ?_, ?_⟩
      · rw [hfault] at h
        cases h.1
      · rw [hsame, hoffice]
      · rw [hsame, hoffice]
    | undone err hbegun hr hend =>
      rw [hend, ← hoffice]
      rcases makes_addWorkspaceTx userId row (d₁.next d₁.office.begun) with
        ⟨hmade, hns⟩ | ⟨hnot, hsame, -⟩
      · exact .inl ⟨⟨hbegun, hmade⟩, fun heq => hmade.free (heq ▸ hns)⟩
      · exact .inr ⟨fun h => hnot h.2, rfl, hsame⟩
    | kept wsId hbegun hbody hr hend =>
      rw [hend, ← hoffice]
      rcases makes_addWorkspaceTx userId row (d₁.next d₁.office.begun) with
        ⟨hmade, hns⟩ | ⟨-, -, err, herr⟩
      · exact .inl ⟨⟨hbegun, hmade⟩, fun heq => hmade.free (heq ▸ hns)⟩
      · rw [hbody] at herr
        cases herr
  · have hr : r = (.error err, d.skip 1) := by
      change (unwrap _ _).run attend d = _
      rw [run_unwrap_error (congrArg Prod.fst hcheck), hcheck]
    rw [hr]
    exact .inr ⟨fun h => hnot h.1, rfl, rfl⟩

/-- **When the creation of a workspace is all or nothing.** Over every office and every pattern of
failing calls: exactly if `AddWorkspace` succeeds or does not get as far as the namespace. -/
theorem allOrNothing_iff (username slug : String) (dto : WorkspaceDto) (d : Desk) :
    AllOrNothing userId username slug dto d ↔
      (∃ wsId, ((addWorkspace userId username slug dto).run attend d).1 = .ok wsId) ∨
        ¬ReachesNamespace userId slug d := by
  unfold AllOrNothing
  dsimp only
  cases hresult : ((addWorkspace userId username slug dto).run attend d).1 with
  | ok wsId => exact iff_of_true nofun (.inl ⟨wsId, rfl⟩)
  | error err =>
    rcases addWorkspace_cases userId username slug dto d with
      ⟨hreaches, hchanged⟩ | ⟨hnot, hdb, hcluster⟩
    · refine iff_of_false (fun h => hchanged (h err rfl).2.2) ?_
      rintro (⟨wsId, hok⟩ | hnot)
      · cases hok
      · exact hnot hreaches
    · refine iff_of_true (fun _ _ => ⟨?_, ?_, hcluster⟩) (.inr hnot)
      · exact congrArg Database.workspaces hdb
      · exact congrArg Database.members hdb

/-- A call that finds nothing in its way but one failing call. -/
def emptyHouse (n : ℕ) : Desk :=
  { turns := fun k =>
      if k = n then { fault := some (newError "timeout") } else { fresh := "1" } }

/-- The creation of the quota fails, or the commit does. The rows are gone and the namespace
stays. -/
theorem namespace_left_behind :
    ¬AllOrNothing "u" "u" "web" {} (emptyHouse 5) ∧
      ¬AllOrNothing "u" "u" "web" {} (emptyHouse 15) := by
  have hquota : ((addWorkspace "u" "u" "web" {}).run attend (emptyHouse 5)).1 =
        .error (newError "failed to create quota: timeout") ∧
      ((addWorkspace "u" "u" "web" {}).run attend
        (emptyHouse 5)).2.office.cluster.namespaces = ["wf-1"] := by decide +kernel
  have hcommit : ((addWorkspace "u" "u" "web" {}).run attend (emptyHouse 15)).1 =
        .error (newError "timeout") ∧
      ((addWorkspace "u" "u" "web" {}).run attend
        (emptyHouse 15)).2.office.cluster.namespaces = ["wf-1"] := by decide +kernel
  constructor
  · intro h
    have hsame := congrArg Cluster.namespaces (h _ hquota.1).2.2
    cases hsame
  · intro h
    have hsame := congrArg Cluster.namespaces (h _ hcommit.1).2.2
    cases hsame

end Wireflow.Server
