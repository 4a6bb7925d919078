/-
# When records and objects of policies agree

`ApplyDirect` applies the object and then writes the record, and drops the errors of that.
`DeletePolicy` drops the error of deleting the object. So either may return nil although the two
stores disagree. `Apply` returns the error of its last statement, and can go wrong in one way only,
which it shares with `ApplyDirect`: a field that the request leaves out and that somebody else has
written stays in the object.
-/

import Wireflow.Server.Policies
import Wireflow.Theorems.Server.Frames

namespace Wireflow.Server

open Semantics Program Option Office DbCall
open Sql (Rows)
open Wireflow.Api

/-! ## What agreement means -/

/-- The object under a key has the given spec. -/
def Carries (o : Office) (key : NamespacedName) (spec : PolicySpec) : Prop :=
  ∃ p, o.cluster.store.policies.get key = some p ∧ specOf p = spec

/-- A record of a workspace and name, not deleted. -/
structure IsRecord (db : Database) (wsId name id : String) (rec : PolicyRecord) : Prop where
  stored : db.policies.rows.lookup id = some rec
  live : rec.deleted = false
  workspace : rec.workspaceId = wsId
  name : rec.name = name

/-- Exactly one record of a workspace and name, active, with the given spec and action. -/
def Recorded (db : Database) (wsId name spec action : String) : Prop :=
  ∃ id rec, IsRecord db wsId name id rec ∧ rec.status = .active ∧ rec.spec = spec ∧
    rec.action = action ∧ ∀ id' rec', IsRecord db wsId name id' rec' → id' = id

/-- The spec that a request asks for. -/
def PolicyDto.requested (dto : PolicyDto) : PolicySpec := { dto.spec with action := dto.action }

variable {db : Database}

/-- The unique index leaves at most one record of a name. -/
theorem IsRecord.unique {wsId name id id' : String} {rec rec' : PolicyRecord}
    (h : IsRecord db wsId name id rec) (h' : IsRecord db wsId name id' rec') : id' = id :=
  db.policies.unique id' id rec' rec h'.stored h.stored
    (h'.workspace.trans h.workspace.symm) (h'.name.trans h.name.symm)

variable {rec : PolicyRecord}

theorem recorded_of_isRecord {wsId name id : String} (h : IsRecord db wsId name id rec)
    (hactive : rec.status = .active) :
    Recorded db wsId name rec.spec rec.action :=
  ⟨id, rec, h, hactive, rfl, rfl, fun _ _ h' => h.unique h'⟩

/-! ## The object -/

/-- A field that goes away when it is no longer applied. -/
def FieldOwner.Released (f : FieldOwner) : Prop := f.applied = true ∧ f.foreign = false

/-- Every field that `obj` leaves out is empty in the object there is, or goes away. -/
def LeavesNothing (cl : Cluster) (obj : LatticePolicy) : Prop :=
  ∀ current, cl.store.policies.get obj.metadata.key = some current →
    (obj.ingress = [] →
      current.ingress = [] ∨ (cl.policyOwners obj.metadata.key).ingress.Released) ∧
    (obj.egress = [] →
      current.egress = [] ∨ (cl.policyOwners obj.metadata.key).egress.Released) ∧
    (obj.action = "" →
      current.action = "" ∨ (cl.policyOwners obj.metadata.key).action.Released)

/-- One field after an apply is as requested, unless it was left out and somebody else has it. -/
theorem applySpecField_eq_iff {β : Type} [DecidableEq β] {owner : FieldOwner} {present : Bool}
    {want current absent v : β} (h : applySpecField owner present want current absent = some v)
    (hwant : present = false → want = absent) :
    v = want ↔ (present = false → current = absent ∨ owner.Released) := by
  unfold applySpecField at h
  cases present with
  | true =>
    rw [if_pos rfl] at h
    split_ifs at h
    simp [← some.inj h]
  | false =>
    rw [if_neg (by simp), some_inj] at h
    rw [hwant rfl, ← h, FieldOwner.Released]
    by_cases hreleased : owner.applied = true ∧ owner.foreign = false
    · simp [hreleased]
    · have hkeep : (owner.applied && !owner.foreign) = false := by
        simpa [not_and] using hreleased
      simp [hkeep, hreleased]

/-- The spec after an apply is the requested one exactly if nothing of others is left in it. -/
theorem applyPolicySpec_eq_iff {owners : PolicyOwners} {obj current p : LatticePolicy}
    (h : applyPolicySpec owners obj current = some p) :
    specOf p = specOf obj ↔
      (obj.ingress = [] → current.ingress = [] ∨ owners.ingress.Released) ∧
      (obj.egress = [] → current.egress = [] ∨ owners.egress.Released) ∧
      (obj.action = "" → current.action = "" ∨ owners.action.Released) := by
  simp only [applyPolicySpec, bind_eq_bind, bind_eq_some_iff] at h
  obtain ⟨network, hnetwork, selector, hselector, ingress, hingress, egress, hegress, action,
    haction, hp⟩ := h
  cases hp
  have hn := (applySpecField_eq_iff hnetwork (by simp)).mpr (by simp)
  have hs := (applySpecField_eq_iff hselector (by simp)).mpr (by simp)
  have hi := applySpecField_eq_iff hingress (by simp)
  have he := applySpecField_eq_iff hegress (by simp)
  have ha := applySpecField_eq_iff haction (by simp)
  simp only [Bool.not_eq_false', List.isEmpty_iff, decide_eq_false_iff_not, ne_eq, not_not]
    at hi he ha
  simp only [specOf, PolicySpec.mk.injEq, hn, hs, true_and, hi, he, ha]

variable {o : Office}

/-- The object after an apply that succeeded. -/
theorem carries_applyPolicy_iff {o' : Office} {obj : LatticePolicy}
    (h : o.cluster.applyPolicy obj = .ok ((), o'.cluster)) :
    Carries o' obj.metadata.key (specOf obj) ↔ LeavesNothing o.cluster obj := by
  have happly := inNamespace_eq_ok h
  cases hget : o.cluster.store.policies.get obj.metadata.key with
  | none =>
    rw [hget] at happly
    have hcluster := (Prod.mk.inj (Except.ok.inj happly)).2
    refine iff_of_true ⟨obj, hcluster ▸ Table.get_put_self _ _, rfl⟩ fun current hcurrent => ?_
    rw [hget] at hcurrent
    cases hcurrent
  | some current =>
    rw [hget] at happly
    dsimp only at happly
    cases hspec : applyPolicySpec (o.cluster.policyOwners obj.metadata.key) obj current with
    | none => simp [hspec] at happly
    | some spec =>
      rw [hspec] at happly
      have hcluster := (Prod.mk.inj (Except.ok.inj happly)).2
      have hcurrent : current.metadata.key = obj.metadata.key := Table.key_of_get hget
      have hkey : (HasMeta.metadata (Cluster.appliedPolicy obj current spec)).key =
          obj.metadata.key := hcurrent
      have hstored : o'.cluster.store.policies.get obj.metadata.key =
          some (Cluster.appliedPolicy obj current spec) := by
        rw [← hcluster, ← hkey]
        exact Table.get_put_self _ _
      have hiff : Carries o' obj.metadata.key (specOf obj) ↔ specOf spec = specOf obj := by
        constructor
        · rintro ⟨p, hp, hspecOf⟩
          obtain rfl := some.inj (hstored.symm.trans hp)
          exact hspecOf
        · intro hspecOf
          exact ⟨_, hstored, hspecOf⟩
      rw [hiff, applyPolicySpec_eq_iff hspec, LeavesNothing]
      constructor
      · intro hfields current' hcurrent'
        obtain rfl := some.inj (hget.symm.trans hcurrent')
        exact hfields
      · intro hall
        exact hall current hget

/-! ## The record -/

/-- The row under a key is replaced. -/
theorem isRecord_put {wsId name id : String} (hfree : ¬db.policies.Clashes id rec)
    (hlive : rec.deleted = false) (hws : rec.workspaceId = wsId) (hname : rec.name = name) :
    IsRecord { db with policies := db.policies.put id rec hfree } wsId name id rec :=
  ⟨AList.lookup_insert _, hlive, hws, hname⟩

/-- A statement that may fail leaves the table, or leaves it changed. -/
theorem execOffice_db_effect (c : DbCall) (t : Turn) (o : Office)
    (heffect : t.fault = none ∨ t.lost) {a : c.Res} {db' : Database}
    (h : c.apply t.fresh o.view = .ok (a, db')) :
    (execOffice (.db c) t o).2 = o.setView db' := by
  simp only [execOffice, h, Turn.answer]
  cases hfault : t.fault with
  | none => rfl
  | some err =>
    rw [hfault] at heffect
    simp [heffect.resolve_left (by simp)]

theorem execOffice_db_noEffect (c : DbCall) (t : Turn) (o : Office)
    (h : (∃ err, t.fault = some err ∧ t.lost = false) ∨
      ∃ err, c.apply t.fresh o.view = .error err) :
    (execOffice (.db c) t o).2 = o := by
  have hview : (t.answer o.view (c.apply t.fresh o.view)).2 = o.view := by
    rcases h with ⟨err, hfault, hlost⟩ | ⟨err, herr⟩
    · unfold Turn.answer
      rw [hfault]
      cases c.apply t.fresh o.view with
      | error err => rfl
      | ok r => simp [hlost]
    · rw [herr]
      rfl
  change o.setView _ = o
  rw [hview, setView_view]

/-- No row at all has the workspace and name, deleted ones included. -/
def Unused (db : Database) (wsId name : String) : Prop :=
  ∀ id rec, db.policies.rows.lookup id = some rec → ¬(rec.workspaceId = wsId ∧ rec.name = name)

/-- The record of `ApplyDirect` is written: the query finds the record there is and it is updated,
or there is no row of the name and one is inserted under a new key. -/
def RecordSaved (db : Database) (query save : Turn) (wsId name : String) : Prop :=
  (save.fault = none ∨ save.lost) ∧
    ((query.fault = none ∧ ∃ id rec, id ≠ "" ∧ IsRecord db wsId name id rec) ∨
      (Unused db wsId name ∧ db.policies.rows.lookup save.fresh = none))

variable {uuid : String}

/-- The record that a query by name finds. -/
theorem getPolicyByName_eq {wsId name : String} {id : String} {db' : Database}
    (h : (getPolicyByName wsId name).apply uuid db = .ok ((id, rec), db')) :
    IsRecord db wsId name id rec := by
  obtain ⟨hfirst, -⟩ := foundRow_map_eq_ok h
  obtain ⟨hlookup, htest, -⟩ := Rows.first_eq_some hfirst
  simp only [Bool.and_eq_true, Bool.not_eq_true', decide_eq_true_eq] at htest
  exact ⟨hlookup, htest.1.1, htest.1.2, htest.2⟩

theorem getPolicyByName_found {wsId name id : String} (h : IsRecord db wsId name id rec)
    (uuid : String) :
    (getPolicyByName wsId name).apply uuid db = .ok ((id, rec), db) := by
  cases hfirst : db.policies.rows.first
      (fun p => !p.deleted && p.workspaceId = wsId && p.name = name) with
  | none =>
    have hnone := Rows.first_eq_none.mp hfirst id rec h.stored
    simp [h.live, h.workspace, h.name] at hnone
  | some r =>
    obtain ⟨id', rec'⟩ := r
    have hr : (getPolicyByName wsId name).apply uuid db =
        .ok ((id', rec'), db) := by
      simp only [apply, hfirst, foundRow]
      rfl
    have hrec := getPolicyByName_eq hr
    obtain rfl : id' = id := h.unique hrec
    obtain rfl : rec = rec' := some.inj (h.stored.symm.trans hrec.stored)
    exact hr

/-- An insertion is refused when the key or the name is taken. -/
theorem createPolicy_eq_error {row : PolicyRecord}
    (h : db.policies.rows.lookup uuid = none → ¬Unused db row.workspaceId row.name) :
    ∃ err, (createPolicy row).apply uuid db = .error err := by
  simp only [apply]
  cases huuid : db.policies.rows.lookup uuid with
  | some taken => exact ⟨_, rfl⟩
  | none =>
    have hused := h huuid
    unfold Unused at hused
    push Not at hused
    obtain ⟨id, rec, hrec, hws, hname⟩ := hused
    have hclash : db.policies.Clashes uuid row := by
      refine ⟨(id, rec), Go.GoMap.mem_pairs.mpr hrec, ?_, hws, hname⟩
      rintro rfl
      rw [huuid] at hrec
      cases hrec
    simp [Database.putPolicy, hclash]

theorem createPolicy_eq_ok (row : PolicyRecord) (huuid : db.policies.rows.lookup uuid = none)
    (hunused : Unused db row.workspaceId row.name) :
    ∃ hfree : ¬db.policies.Clashes uuid row,
      (createPolicy row).apply uuid db =
        .ok (uuid, { db with policies := db.policies.put uuid row hfree }) := by
  have hfree : ¬db.policies.Clashes uuid row := by
    rintro ⟨⟨id, rec⟩, hmem, -, hws, hname⟩
    exact hunused id rec (Go.GoMap.mem_pairs.mp hmem) ⟨hws, hname⟩
  exact ⟨hfree, by simp [apply, huuid, Database.putPolicy, hfree]⟩

/-- A record is updated in place: its name and workspace stay. -/
theorem updatePolicy_eq_ok {wsId name id : String} (row : PolicyRecord)
    (h : IsRecord db wsId name id rec) (hws : row.workspaceId = wsId) (hname : row.name = name)
    (uuid : String) :
    ∃ hfree : ¬db.policies.Clashes id row,
      (updatePolicy id row).apply uuid db =
        .ok ((), { db with policies := db.policies.put id row hfree }) := by
  have hfree : ¬db.policies.Clashes id row := by
    rintro ⟨⟨id', rec'⟩, hmem, hne, hws', hname'⟩
    exact hne (db.policies.unique id' id rec' rec (Go.GoMap.mem_pairs.mp hmem) h.stored
      (hws'.trans (hws.trans h.workspace.symm)) (hname'.trans (hname.trans h.name.symm)))
  exact ⟨hfree, by simp [apply, Database.putPolicy, hfree]⟩

section Save

variable (codec : PolicyCodec) (wsId operatorId operatorName : String) (dto : PolicyDto)

/-- The statement by which `ApplyDirect` writes the record. -/
def saveCall (found : Except GoError (String × PolicyRecord)) : DbCall :=
  let existing := existingRecord wsId operatorId operatorName dto.name found
  let row := directRecord codec operatorId operatorName dto existing.2
  if existing.1 = "" then .createPolicy row else .updatePolicy existing.1 row

/-- What the query of `ApplyDirect` is answered. -/
def queryAnswer (o : Office) (t : Turn) : Except GoError (String × PolicyRecord) :=
  (execOffice (.db (.getPolicyByName wsId dto.name)) t o).1

/-- The office once the record has been written or not. -/
def savedOffice (o : Office) (query save : Turn) : Office :=
  (execOffice (.db (saveCall codec wsId operatorId operatorName dto
    (queryAnswer wsId dto o query))) save o).2

variable {wsId dto}

theorem queryAnswer_eq_ok {t : Turn} {r : String × PolicyRecord}
    (h : queryAnswer wsId dto o t = .ok r) :
    t.fault = none ∧ IsRecord o.view wsId dto.name r.1 r.2 := by
  obtain ⟨happly, hfault⟩ := Turn.answer_eq_ok (s := o.view) h
  exact ⟨hfault, getPolicyByName_eq happly⟩

variable {codec operatorId operatorName}

variable {query save : Turn}

/-- What is written counts as the record of the policy. -/
theorem recorded_of_saved (h : RecordSaved o.view query save wsId dto.name) :
    Recorded (savedOffice codec wsId operatorId operatorName dto o query save).view wsId dto.name
      (codec.marshalSpec dto.spec) dto.action := by
  obtain ⟨heffect, ⟨hquery, id, rec, hid, hrec⟩ | ⟨hunused, hfresh⟩⟩ := h
  · have hanswer : queryAnswer wsId dto o query = .ok (id, rec) := by
      simp [queryAnswer, execOffice, getPolicyByName_found hrec, Turn.answer, hquery]
    set row := directRecord codec operatorId operatorName dto rec
    obtain ⟨hfree, happly⟩ := updatePolicy_eq_ok row hrec hrec.workspace hrec.name save.fresh
    have hcall : saveCall codec wsId operatorId operatorName dto (queryAnswer wsId dto o query) =
        .updatePolicy id row := by
      rw [saveCall, hanswer]
      exact if_neg hid
    rw [savedOffice, hcall, execOffice_db_effect _ save o heffect happly, view_setView]
    exact recorded_of_isRecord (isRecord_put hfree hrec.live hrec.workspace hrec.name) rfl
  · have hanswer : ∃ err, queryAnswer wsId dto o query = .error err := by
      cases hq : queryAnswer wsId dto o query with
      | error err => exact ⟨err, rfl⟩
      | ok r =>
        have hrec := (queryAnswer_eq_ok hq).2
        exact absurd ⟨hrec.workspace, hrec.name⟩ (hunused r.1 r.2 hrec.stored)
    obtain ⟨err, hanswer⟩ := hanswer
    set row := directRecord codec operatorId operatorName dto
      (existingRecord wsId operatorId operatorName dto.name (.error err)).2
    obtain ⟨hfree, happly⟩ := createPolicy_eq_ok row hfresh hunused
    have hcall : saveCall codec wsId operatorId operatorName dto (queryAnswer wsId dto o query) =
        .createPolicy row := by
      rw [saveCall, hanswer]
      exact if_pos rfl
    rw [savedOffice, hcall, execOffice_db_effect _ save o heffect happly, view_setView]
    exact recorded_of_isRecord (isRecord_put hfree rfl rfl rfl) rfl

/-- Otherwise nothing is written. -/
theorem savedOffice_of_not_saved (h : ¬RecordSaved o.view query save wsId dto.name) :
    savedOffice codec wsId operatorId operatorName dto o query save = o := by
  refine execOffice_db_noEffect _ save o ?_
  by_cases heffect : save.fault = none ∨ save.lost
  · right
    have hneither : ¬((query.fault = none ∧
          ∃ id rec, id ≠ "" ∧ IsRecord o.view wsId dto.name id rec) ∨
        (Unused o.view wsId dto.name ∧ o.view.policies.rows.lookup save.fresh = none)) :=
      fun hor => h ⟨heffect, hor⟩
    rw [not_or] at hneither
    cases hq : queryAnswer wsId dto o query with
    | ok r =>
      obtain ⟨hquery, hrec⟩ := queryAnswer_eq_ok hq
      -- only a record without a key is found and not updated
      have hid : r.1 = "" := by
        by_contra hid
        exact hneither.1 ⟨hquery, r.1, r.2, hid, hrec⟩
      have hcall : saveCall codec wsId operatorId operatorName dto (.ok r) =
          .createPolicy (directRecord codec operatorId operatorName dto r.2) := if_pos hid
      rw [hcall]
      refine createPolicy_eq_error fun _ hunused => ?_
      exact hunused r.1 r.2 hrec.stored ⟨rfl, rfl⟩
    | error err =>
      refine createPolicy_eq_error fun hfresh hunused => ?_
      exact hneither.2 ⟨hunused, hfresh⟩
  · left
    rw [not_or] at heffect
    obtain ⟨err, herr⟩ := ne_none_iff_exists'.mp heffect.1
    exact ⟨err, herr, by simpa using heffect.2⟩

end Save

/-! ## The services -/

section Services

variable {codec : PolicyCodec} {wsId operatorId operatorName name policyId : String}
  {dto : PolicyDto} {d : Desk}

/-- A workspace that is read is stored. -/
theorem getWorkspace_eq_ok {ws : Workspace}
    (h : ((getWorkspace wsId).issue.run attend d).1 = .ok ws) :
    live Workspace.deleted d.office.view.workspaces wsId = some ws ∧
      (getWorkspace wsId).issue.run attend d = (.ok ws, d.next d.office) := by
  obtain ⟨db', happly, -, hrun⟩ := run_db_eq_ok h
  obtain ⟨hlive, rfl⟩ := foundRow_map_eq_ok happly
  exact ⟨hlive, by rw [hrun, setView_view]⟩

theorem applyPolicy_eq_ok {obj : LatticePolicy}
    (h : ((KubeCall.applyPolicy obj).issue.run attend d).1 = .ok ()) :
    ∃ cl', d.office.cluster.applyPolicy obj = .ok ((), cl') ∧
      (KubeCall.applyPolicy obj).issue.run attend d =
        (.ok (), d.next { d.office with cluster := cl' }) := by
  obtain ⟨cl', happly, -, hrun⟩ := run_kube_eq_ok h
  exact ⟨cl', happly, hrun⟩

theorem run_saveRecord (id : String) (row : PolicyRecord) :
    ((saveRecord id row).run attend d).2.office =
      (execOffice (.db (if id = "" then .createPolicy row else .updatePolicy id row))
        (d.turns 0) d.office).2 := by
  unfold saveRecord
  by_cases hid : id = ""
  · subst hid
    rfl
  · rw [if_neg hid, if_neg hid]
    rfl

/-- What `ApplyDirect` has done when it returns nil. -/
theorem applyDirect_eq_ok
    (h : ((applyDirect codec wsId operatorId operatorName dto).run attend d).1 = .ok ()) :
    ∃ ws cl', live Workspace.deleted d.office.view.workspaces wsId = some ws ∧
      d.office.cluster.applyPolicy (directObject ws.ns dto) = .ok ((), cl') ∧
      ((applyDirect codec wsId operatorId operatorName dto).run attend d).2.office =
        savedOffice codec wsId operatorId operatorName dto { d.office with cluster := cl' }
          (d.turns 2) (d.turns 3) := by
  obtain ⟨ws, hread, hfirst⟩ := unwrap_eq_ok h
  obtain ⟨hlive, hws⟩ := getWorkspace_eq_ok hread
  rw [applyDirect, hfirst, hws] at h
  obtain ⟨⟨⟩, hkube, hsecond⟩ := unwrap_eq_ok h
  obtain ⟨cl', happly, hcl⟩ := applyPolicy_eq_ok hkube
  refine ⟨ws, cl', hlive, happly, ?_⟩
  rw [applyDirect, hfirst, hws, hsecond, hcl]
  simp only [run_bind]
  rw [run_query rfl]
  exact run_saveRecord _ _

/-- `ApplyDirect` leaves the two stores in agreement if it returns nil. -/
def DirectAgrees (codec : PolicyCodec) (wsId operatorId operatorName : String) (dto : PolicyDto)
    (d : Desk) : Prop :=
  ((applyDirect codec wsId operatorId operatorName dto).run attend d).1 = .ok () →
    ∀ ws, live Workspace.deleted d.office.view.workspaces wsId = some ws →
      Carries ((applyDirect codec wsId operatorId operatorName dto).run attend d).2.office
          ⟨ws.ns, dto.name⟩ dto.requested ∧
        Recorded ((applyDirect codec wsId operatorId operatorName dto).run attend d).2.office.view
          wsId dto.name (codec.marshalSpec dto.spec) dto.action

/-- What `Apply` has done when it returns nil. -/
theorem applyRecord_eq_ok (h : ((applyRecord codec policyId).run attend d).1 = .ok ()) :
    ∃ rec ws spec cl', live PolicyRecord.deleted d.office.view.policies.rows policyId = some rec ∧
      live Workspace.deleted d.office.view.workspaces rec.workspaceId = some ws ∧
      codec.unmarshalSpec rec.spec = .ok spec ∧
      d.office.cluster.applyPolicy (recordObject codec ws.ns rec spec) = .ok ((), cl') ∧
      ((applyRecord codec policyId).run attend d).2.office.cluster = cl' ∧
      Recorded ((applyRecord codec policyId).run attend d).2.office.view rec.workspaceId rec.name
        rec.spec rec.action := by
  obtain ⟨rec, hread, hfirst⟩ := unwrap_eq_ok h
  obtain ⟨hget, hmap⟩ := mapError_eq_ok hread
  obtain ⟨db₁, hpolicy, -, hrun⟩ := run_db_eq_ok hget
  obtain ⟨hrec, rfl⟩ := foundRow_map_eq_ok hpolicy
  rw [applyRecord, hfirst, hmap, hrun, setView_view] at h
  obtain ⟨ws, hread', hsecond⟩ := unwrap_eq_ok h
  obtain ⟨hget', hmap'⟩ := mapError_eq_ok hread'
  obtain ⟨hws, hrun'⟩ := getWorkspace_eq_ok hget'
  rw [hsecond, hmap', hrun'] at h
  cases hspec : codec.unmarshalSpec rec.spec with
  | error err =>
    rw [hspec] at h
    cases h
  | ok spec =>
    rw [hspec] at h
    simp only [enforceRecord, run_bind] at h
    cases hkube : ((KubeCall.applyPolicy (recordObject codec ws.ns rec spec)).issue.run attend
        (((d.next d.office).next (d.next d.office).office))).1 with
    | error err =>
      rw [hkube] at h
      cases h
    | ok value =>
      obtain ⟨cl', happly, hcl⟩ := applyPolicy_eq_ok hkube
      rw [hkube, hcl] at h
      obtain ⟨db', hupdate, -, hlast⟩ := run_db_eq_ok h
      have hoffice : ((applyRecord codec policyId).run attend d).2.office =
          ({ d.office with cluster := cl' } : Office).setView db' := by
        rw [applyRecord, hfirst, hmap, hrun, setView_view, hsecond, hmap', hrun', hspec]
        simp only [enforceRecord, run_bind]
        rw [hkube, hcl, hlast]
        rfl
      -- the last statement is carried out, so the record is there
      obtain ⟨hstored, hlive⟩ := filter_eq_some_iff.mp hrec
      rw [Bool.not_eq_true_eq_eq_false] at hlive
      obtain ⟨hfree, heq⟩ := updatePolicy_eq_ok { rec with status := .active, errorMessage := "" }
        ⟨hstored, hlive, rfl, rfl⟩ rfl rfl (d.turns 3).fresh
      obtain rfl := (Prod.mk.inj (Except.ok.inj (heq.symm.trans hupdate))).2
      refine ⟨rec, ws, spec, cl', hrec, hws, hspec, happly, ?_, ?_⟩ <;> rw [hoffice]
      · exact cluster_setView _ _
      · rw [view_setView]
        have hput : IsRecord _ rec.workspaceId rec.name policyId
            { rec with status := .active, errorMessage := "" } := isRecord_put hfree hlive rfl rfl
        have hrecorded := recorded_of_isRecord hput rfl
        exact hrecorded

/-- `Apply` leaves the two stores in agreement if it returns nil. -/
def RecordAgrees (codec : PolicyCodec) (policyId : String) (d : Desk) : Prop :=
  ((applyRecord codec policyId).run attend d).1 = .ok () →
    ∀ rec ws spec, live PolicyRecord.deleted d.office.view.policies.rows policyId = some rec →
      live Workspace.deleted d.office.view.workspaces rec.workspaceId = some ws →
      codec.unmarshalSpec rec.spec = .ok spec →
      Carries ((applyRecord codec policyId).run attend d).2.office ⟨ws.ns, rec.name⟩
          { spec with action := rec.action } ∧
        Recorded ((applyRecord codec policyId).run attend d).2.office.view rec.workspaceId rec.name
          rec.spec rec.action

/-- Cleaning up leaves policies and the cluster alone. -/
theorem run_cleanUpRequest (found : Except GoError (String × PolicyRecord)) :
    ((cleanUpRequest found).run attend d).2.office.view.policies = d.office.view.policies ∧
      ((cleanUpRequest found).run attend d).2.office.cluster = d.office.cluster := by
  unfold cleanUpRequest
  cases found with
  | error err => exact ⟨rfl, rfl⟩
  | ok r =>
    dsimp only
    split_ifs
    · exact ⟨rfl, rfl⟩
    · exact ⟨(sameBut_execOffice _ _ _).policies (by simp [writes]),
        cluster_setView _ _⟩

/-- The cluster after the deletion of a policy that may have failed. -/
def deletedCluster (cl : Cluster) (t : Turn) (key : NamespacedName) : Cluster :=
  (t.answer cl (cl.deletePolicy key)).2

/-- The object is gone exactly if it was not there or the deletion took effect. -/
theorem get_deletedCluster_iff (cl : Cluster) (t : Turn) (key : NamespacedName) :
    (deletedCluster cl t key).store.policies.get key = none ↔
      cl.store.policies.get key = none ∨ t.fault = none ∨ t.lost := by
  unfold deletedCluster Cluster.deletePolicy
  cases hget : cl.store.policies.get key with
  | none => simp [Turn.answer, hget]
  | some p =>
    cases hfault : t.fault with
    | none => simp [Turn.answer, hfault]
    | some err =>
      by_cases hlost : t.lost = true
      · simp [Turn.answer, hfault, hlost]
      · simp [Turn.answer, hfault, hlost, hget]

/-- What `DeletePolicy` has done when it returns nil. -/
theorem deletePolicy_eq_ok (h : ((deletePolicy wsId name).run attend d).1 = .ok ()) :
    ∃ ws, live Workspace.deleted d.office.view.workspaces wsId = some ws ∧
      ((deletePolicy wsId name).run attend d).2.office.cluster =
        deletedCluster d.office.cluster (d.turns 2) ⟨ws.ns, name⟩ ∧
      ((deletePolicy wsId name).run attend d).2.office.view.policies =
        d.office.view.policies.softDelete wsId name := by
  obtain ⟨ws, hread, hfirst⟩ := unwrap_eq_ok h
  obtain ⟨hlive, hws⟩ := getWorkspace_eq_ok hread
  rw [deletePolicy, hfirst, hws] at h ⊢
  refine ⟨ws, hlive, ?_⟩
  rw [run_bind, run_query rfl, run_bind] at h ⊢
  obtain ⟨value, hdelete, hthird⟩ := unwrap_eq_ok h
  obtain ⟨db', happly, -, hrun⟩ := run_db_eq_ok hdelete
  rw [hthird, hrun, run_bind]
  cases happly
  refine ⟨(run_cleanUpRequest _).2.trans ?_, (run_cleanUpRequest _).1.trans ?_⟩
  · rw [Desk.next_office, cluster_setView]
    rfl
  · rw [Desk.next_office, view_setView]
    rfl

/-- `DeletePolicy` leaves neither object nor record if it returns nil. -/
def DeletionAgrees (wsId name : String) (d : Desk) : Prop :=
  ((deletePolicy wsId name).run attend d).1 = .ok () →
    ∀ ws, live Workspace.deleted d.office.view.workspaces wsId = some ws →
      ((deletePolicy wsId name).run attend d).2.office.cluster.store.policies.get
          ⟨ws.ns, name⟩ = none ∧
        ∀ id rec, ¬IsRecord ((deletePolicy wsId name).run attend d).2.office.view wsId name id rec

/-- No record is left of what has been deleted. -/
theorem not_isRecord_softDelete {db db' : Database}
    (h : db'.policies = db.policies.softDelete wsId name) (id : String) (rec : PolicyRecord) :
    ¬IsRecord db' wsId name id rec := by
  intro hrec
  have hstored := hrec.stored
  rw [h] at hstored
  simp only [PolicyTable.softDelete, Rows.lookup_updateWhere, map_eq_some_iff] at hstored
  obtain ⟨row, -, hrow⟩ := hstored
  split_ifs at hrow with htest
  · have hlive := hrec.live
    rw [← hrow] at hlive
    cases hlive
  · subst hrow
    simp [hrec.live, hrec.workspace, hrec.name] at htest

/-- **When records and objects agree.** Over every office and every pattern of failing calls:
`ApplyDirect` that returns nil leaves object and record as requested exactly if nothing of others
is left in the object and the record is written or was there already; `Apply` exactly if nothing of
others is left in the object; and `DeletePolicy` leaves neither exactly if the object was not there
or its deletion took effect. -/
theorem policies_agree_iff (codec : PolicyCodec) (d : Desk) :
    (∀ wsId operatorId operatorName dto,
      DirectAgrees codec wsId operatorId operatorName dto d ↔
        (((applyDirect codec wsId operatorId operatorName dto).run attend d).1 = .ok () →
          ∀ ws, live Workspace.deleted d.office.view.workspaces wsId = some ws →
            LeavesNothing d.office.cluster (directObject ws.ns dto) ∧
              (RecordSaved d.office.view (d.turns 2) (d.turns 3) wsId dto.name ∨
                Recorded d.office.view wsId dto.name (codec.marshalSpec dto.spec) dto.action))) ∧
    (∀ policyId, RecordAgrees codec policyId d ↔
      (((applyRecord codec policyId).run attend d).1 = .ok () →
        ∀ rec ws spec, live PolicyRecord.deleted d.office.view.policies.rows policyId = some rec →
          live Workspace.deleted d.office.view.workspaces rec.workspaceId = some ws →
          codec.unmarshalSpec rec.spec = .ok spec →
          LeavesNothing d.office.cluster (recordObject codec ws.ns rec spec))) ∧
    ∀ wsId name, DeletionAgrees wsId name d ↔
      (((deletePolicy wsId name).run attend d).1 = .ok () →
        ∀ ws, live Workspace.deleted d.office.view.workspaces wsId = some ws →
          d.office.cluster.store.policies.get ⟨ws.ns, name⟩ = none ∨
            (d.turns 2).fault = none ∨ (d.turns 2).lost) := by
  refine ⟨fun wsId operatorId operatorName dto => ?_, fun policyId => ?_, fun wsId name => ?_⟩
  · refine imp_congr_right fun hok => forall_congr' fun ws => imp_congr_right fun hlive => ?_
    obtain ⟨ws', cl', hlive', happly, hoffice⟩ := applyDirect_eq_ok hok
    obtain rfl : ws = ws' := some.inj (hlive.symm.trans hlive')
    obtain rfl : _ = cl' := (congrArg cluster hoffice).trans (cluster_setView _ _)
    refine and_congr (carries_applyPolicy_iff happly) ?_
    rw [hoffice]
    by_cases hsaved : RecordSaved d.office.view (d.turns 2) (d.turns 3) wsId dto.name
    · exact iff_of_true (recorded_of_saved (by exact hsaved)) (.inl hsaved)
    · rw [savedOffice_of_not_saved (by exact hsaved)]
      exact (or_iff_right hsaved).symm
  · refine imp_congr_right fun hok => forall_congr' fun rec => forall_congr' fun ws =>
      forall_congr' fun spec => imp_congr_right fun hrec => imp_congr_right fun hws =>
        imp_congr_right fun hspec => ?_
    obtain ⟨rec', ws', spec', cl', hrec', hws', hspec', happly, rfl, hrecorded⟩ :=
      applyRecord_eq_ok hok
    obtain rfl : rec = rec' := some.inj (hrec.symm.trans hrec')
    obtain rfl : ws = ws' := some.inj (hws.symm.trans hws')
    obtain rfl : spec = spec' := Except.ok.inj (hspec.symm.trans hspec')
    rw [and_iff_left hrecorded]
    exact carries_applyPolicy_iff happly
  · refine imp_congr_right fun hok => forall_congr' fun ws => imp_congr_right fun hlive => ?_
    obtain ⟨ws', hlive', hcluster, hpolicies⟩ := deletePolicy_eq_ok hok
    obtain rfl : ws = ws' := some.inj (hlive.symm.trans hlive')
    rw [and_iff_left (not_isRecord_softDelete hpolicies), hcluster]
    exact get_deletedCluster_iff _ _ _

end Services

/-! ## Errors that are dropped -/

/-- A workspace with its namespace, and no policies. -/
def oneWorkspace : Office :=
  { db := { workspaces := Go.GoMap.ofPairs [("1", { ns := "wf-1" })] }
    cluster := { namespaces := ["wf-1"] } }

/-- A codec that does not look at anything but the action. -/
def plainCodec : PolicyCodec where
  marshalSpec spec := spec.action
  unmarshalSpec text := .ok { action := text }
  marshalTypes _ := ""
  unmarshalTypes _ := []
  marshalPayload id := id
  unmarshalPayload text := .ok text

/-- The turns of a run in which one call fails. -/
def failingAt (n : ℕ) : ℕ → Turn := fun k =>
  if k = n then { fault := some (newError "timeout") } else { fresh := "p" }

/-- With a database that fails once, `ApplyDirect` returns nil and there is an object without a
record. With an API server that fails once, `DeletePolicy` returns nil and the object is left. -/
theorem errors_dropped :
    ¬DirectAgrees plainCodec "1" "u" "u" { name := "web" }
        { office := oneWorkspace, turns := failingAt 3 } ∧
      ¬DeletionAgrees "1" "web"
        { office := ((applyDirect plainCodec "1" "u" "u" { name := "web" }).run attend
            { office := oneWorkspace, turns := failingAt 9 }).2.office
          turns := failingAt 2 } := by
  constructor
  · intro h
    have hok : ((applyDirect plainCodec "1" "u" "u" { name := "web" }).run attend
        { office := oneWorkspace, turns := failingAt 3 }).1 = .ok () := by decide +kernel
    obtain ⟨id, rec, hrec, -⟩ := (h hok { ns := "wf-1" } (by decide +kernel)).2
    have hstored := hrec.stored
    cases hstored
  · intro h
    have hgone := (h (by decide +kernel) { ns := "wf-1" } (by decide +kernel)).1
    have hleft : (((deletePolicy "1" "web").run attend
        { office := ((applyDirect plainCodec "1" "u" "u" { name := "web" }).run attend
            { office := oneWorkspace, turns := failingAt 9 }).2.office
          turns := failingAt 2 }).2.office.cluster.store.policies.get
            ⟨"wf-1", "web"⟩).isSome = true := by decide +kernel
    rw [hgone] at hleft
    cases hleft

end Wireflow.Server
