/-
# What a program does to whose things

Workspace rows, membership rows, peers, policies and peerings each concern certain workspaces.
`Fits` says of two offices that all that differs between them concerns the same workspaces, those
given by a predicate, and whether policies may have been created or changed. It composes, so it is
enough to look at single calls: `Licensed` are the calls that fit, and `Program.Obeys` carries that
over to whole programs.

The namespace of a workspace is that of its identifier (`Tidy`), which all rows made by
`AddWorkspace` keep.
-/

import Wireflow.Server.Api
import Wireflow.Theorems.Server.Transactions

namespace Wireflow.Server

open Semantics Program Option KubeCall DbCall
open Sql (Rows)
open Wireflow.Api

/-! ## Namespaces -/

/-- Every workspace has the namespace of its identifier. -/
def Tidy (db : Database) : Prop :=
  ∀ id ws, db.workspaces.lookup id = some ws → ws.ns = namespaceOf id

/-- A workspace has a namespace. -/
def Owns (db : Database) (wsId ns : String) : Prop :=
  ∃ ws, db.workspaces.lookup wsId = some ws ∧ ws.ns = ns

theorem owns_namespaceOf_iff {db : Database} (htidy : Tidy db) {id : String} {ws : Workspace}
    (hws : db.workspaces.lookup id = some ws) (w : String) :
    Owns db w (namespaceOf id) ↔ w = id := by
  constructor
  · rintro ⟨ws', hws', hns⟩
    exact (String.append_right_inj "wf-").mp ((htidy w ws' hws').symm.trans hns)
  · rintro rfl
    exact ⟨ws, hws, htidy w ws hws⟩

/-! ## Things -/

/-- What the isolation of tenants is about. -/
inductive Thing
  | workspace (id : String)
  | member (key : String)
  | peer (key : NamespacedName)
  | policy (key : NamespacedName)
  | peering (name : String)

/-- A thing was created, changed or deleted. -/
def Changed (o o' : Office) : Thing → Prop
  | .workspace id => o'.db.workspaces.lookup id ≠ o.db.workspaces.lookup id
  | .member key => o'.db.members.lookup key ≠ o.db.members.lookup key
  | .peer key => o'.cluster.store.peers.get key ≠ o.cluster.store.peers.get key
  | .policy key => o'.cluster.store.policies.get key ≠ o.cluster.store.policies.get key
  | .peering name => o'.cluster.peerings.lookup name ≠ o.cluster.peerings.lookup name

/-- A peering has a workspace at one of its ends. -/
def Peering.Joins (p : Peering) (db : Database) (wsId : String) : Prop :=
  Owns db wsId p.namespaceA ∨ Owns db wsId p.namespaceB

/-- A thing belongs to a workspace. A peering belongs to those at both its ends. -/
def Concerns (o o' : Office) : Thing → String → Prop
  | .workspace id, w => w = id
  | .member key, w =>
      ∃ m, (o.db.members.lookup key = some m ∨ o'.db.members.lookup key = some m) ∧
        w = m.workspaceId
  | .peer key, w => Owns o.db w key.ns
  | .policy key, w => Owns o.db w key.ns
  | .peering name, w =>
      ∃ p, (o.cluster.peerings.lookup name = some p ∨ o'.cluster.peerings.lookup name = some p) ∧
        p.Joins o.db w

/-! ## Changes that concern the same workspaces -/

/-- Two values under a key, of which everything that is there has a property as soon as they
differ. -/
def Differ {α : Type} (P : α → Prop) (before after : Option α) : Prop :=
  after ≠ before → ∀ a, before = some a ∨ after = some a → P a

theorem Differ.refl {α : Type} (P : α → Prop) (a : Option α) : Differ P a a :=
  fun h => absurd rfl h

/-- One of two values that differ is there. -/
theorem exists_of_ne {α : Type} {before after : Option α} (h : after ≠ before) :
    ∃ a, before = some a ∨ after = some a := by
  cases before with
  | some a => exact ⟨a, .inl rfl⟩
  | none =>
    obtain ⟨a, ha⟩ := ne_none_iff_exists'.mp h
    exact ⟨a, .inr ha⟩

theorem Differ.trans {α : Type} {P : α → Prop} {a b c : Option α} (hab : Differ P a b)
    (hbc : Differ P b c) : Differ P a c := by
  intro hne x hx
  by_cases h : b = a
  · subst h
    exact hbc hne x hx
  · rcases hx with hx | hx
    · exact hab h x (.inl hx)
    · by_cases h' : c = b
      · subst h'
        exact hab h x (.inr hx)
      · exact hbc h' x (.inr hx)

variable {T : String → Prop} {puts : Prop}

/-- What differs between two databases concerns the workspaces `T`, and workspaces keep their
namespaces. -/
structure DbFits (T : String → Prop) (db db' : Database) : Prop where
  workspaces : ∀ id, db'.workspaces.lookup id ≠ db.workspaces.lookup id → ∀ w, w = id ↔ T w
  members : ∀ key, Differ (fun m => ∀ w, w = m.workspaceId ↔ T w)
    (db.members.lookup key) (db'.members.lookup key)
  rows : ∀ id ws', db'.workspaces.lookup id = some ws' →
    ∃ ws, db.workspaces.lookup id = some ws ∧ ws'.ns = ws.ns

namespace DbFits

variable {db db' db'' : Database}

theorem refl (T : String → Prop) (db : Database) : DbFits T db db :=
  ⟨fun _ h => absurd rfl h, fun _ => .refl _ _, fun _ ws h => ⟨ws, h, rfl⟩⟩

theorem trans (h : DbFits T db db') (h' : DbFits T db' db'') : DbFits T db db'' where
  workspaces id hne := by
    by_cases heq : db'.workspaces.lookup id = db.workspaces.lookup id
    · exact h'.workspaces id (heq ▸ hne)
    · exact h.workspaces id heq
  members key := (h.members key).trans (h'.members key)
  rows id ws'' hws'' := by
    obtain ⟨ws', hws', hns'⟩ := h'.rows id ws'' hws''
    obtain ⟨ws, hws, hns⟩ := h.rows id ws' hws'
    exact ⟨ws, hws, hns'.trans hns⟩

/-- Two databases with the same workspaces and members. -/
theorem of_same (hworkspaces : db'.workspaces = db.workspaces)
    (hmembers : db'.members = db.members) : DbFits T db db' where
  workspaces id h := absurd (by rw [hworkspaces]) h
  members key := hmembers ▸ .refl _ _
  rows id ws' h := ⟨ws', hworkspaces ▸ h, rfl⟩

/-- One workspace row is changed, but not its namespace. -/
theorem of_workspace {id : String} {change : Workspace → Workspace}
    (hT : ∀ w, w = id ↔ T w)
    (hchange : ∀ ws, db.workspaces.lookup id = some ws → (change ws).ns = ws.ns) :
    DbFits T db { db with
      workspaces := db.workspaces.updateWhere (fun key w => !w.deleted && key = id) change } where
  workspaces key hne := by
    rw [Rows.lookup_updateWhere] at hne
    by_cases hkey : key = id
    · exact hkey ▸ hT
    · refine absurd ?_ hne
      cases db.workspaces.lookup key <;> simp [hkey]
  members _ := .refl _ _
  rows key ws' h := by
    rw [Rows.lookup_updateWhere, map_eq_some_iff] at h
    obtain ⟨ws, hws, heq⟩ := h
    refine ⟨ws, hws, ?_⟩
    split_ifs at heq with htest
    · obtain rfl : key = id := of_decide_eq_true (Bool.and_eq_true_iff.mp htest).2
      rw [← heq]
      exact hchange ws hws
    · rw [heq]

/-- The membership rows of one workspace are changed, but stay with it. -/
theorem of_members {id : String} {test : String → WorkspaceMember → Bool}
    {change : WorkspaceMember → WorkspaceMember} (hT : ∀ w, w = id ↔ T w)
    (htest : ∀ key m, test key m = true → m.workspaceId = id)
    (hchange : ∀ m, (change m).workspaceId = m.workspaceId) :
    DbFits T db { db with members := db.members.updateWhere test change } where
  workspaces _ h := absurd rfl h
  rows _ ws h := ⟨ws, h, rfl⟩
  members key hne m hm w := by
    rw [Rows.lookup_updateWhere] at hne hm
    cases hold : db.members.lookup key with
    | none => simp [hold] at hne
    | some old =>
      rw [hold, map_some] at hne hm
      have hselected : test key old = true := by
        by_contra hno
        simp [hno] at hne
      rw [if_pos hselected] at hm
      rcases hm with hm | hm
      · rw [← some.inj hm, htest key old hselected]
        exact hT w
      · rw [← some.inj hm, hchange, htest key old hselected]
        exact hT w

theorem of_addMember {key : String} {m : WorkspaceMember} (hfree : db.members.lookup key = none)
    (hT : ∀ w, w = m.workspaceId ↔ T w) :
    DbFits T db { db with members := db.members.insert key m } where
  workspaces _ h := absurd rfl h
  rows _ ws h := ⟨ws, h, rfl⟩
  members key' hne m' hm' := by
    by_cases hkey : key' = key
    · subst hkey
      rcases hm' with hm' | hm'
      · rw [hfree] at hm'
        cases hm'
      · rw [AList.lookup_insert, some_inj] at hm'
        exact hm' ▸ hT
    · exact absurd (AList.lookup_insert_ne hkey) hne

end DbFits

/-- What differs between two clusters concerns the workspaces `T` of a database, and only if `puts`
has any policy been created or changed. -/
structure ClusterFits (T : String → Prop) (puts : Prop) (db : Database) (cl cl' : Cluster) :
    Prop where
  peers : ∀ key, cl'.store.peers.get key ≠ cl.store.peers.get key →
    ∀ w, Owns db w key.ns ↔ T w
  policies : ∀ key, cl'.store.policies.get key ≠ cl.store.policies.get key →
    ∀ w, Owns db w key.ns ↔ T w
  peerings : ∀ name,
    Differ (fun p => ∀ w, p.Joins db w ↔ T w)
      (cl.peerings.lookup name) (cl'.peerings.lookup name)
  kept : ¬puts → ∀ key p, cl'.store.policies.get key = some p →
    cl.store.policies.get key = some p

namespace ClusterFits

variable {db : Database} {cl cl' cl'' : Cluster}

theorem refl (T : String → Prop) (puts : Prop) (db : Database) (cl : Cluster) :
    ClusterFits T puts db cl cl :=
  ⟨fun _ h => absurd rfl h, fun _ h => absurd rfl h, fun _ => .refl _ _, fun _ _ _ h => h⟩

theorem trans (h : ClusterFits T puts db cl cl') (h' : ClusterFits T puts db cl' cl'') :
    ClusterFits T puts db cl cl'' where
  peers key hne := by
    by_cases heq : cl'.store.peers.get key = cl.store.peers.get key
    · exact h'.peers key (heq ▸ hne)
    · exact h.peers key heq
  policies key hne := by
    by_cases heq : cl'.store.policies.get key = cl.store.policies.get key
    · exact h'.policies key (heq ▸ hne)
    · exact h.policies key heq
  peerings name := (h.peerings name).trans (h'.peerings name)
  kept hputs key p hp := h.kept hputs key p (h'.kept hputs key p hp)

end ClusterFits

/-- All that differs between two offices concerns the workspaces `T`, also in an open
transaction. -/
structure Fits (T : String → Prop) (puts : Prop) (o o' : Office) : Prop where
  db : DbFits T o.db o'.db
  tx : ∀ db', o'.tx = some db' → DbFits T o.db db'
  cluster : ClusterFits T puts o.db o.cluster o'.cluster

theorem Fits.refl {o : Office} (htx : o.tx = none) : Fits T puts o o where
  db := .refl T _
  tx _ h := by cases htx.symm.trans h
  cluster := .refl T puts _ _

theorem Fits.view {o o' : Office} (h : Fits T puts o o') : DbFits T o.db o'.view := by
  unfold Office.view
  cases htx : o'.tx with
  | none => exact h.db
  | some db' => exact h.tx db' htx

theorem Fits.setView {o o' : Office} (h : Fits T puts o o') {db' : Database}
    (hdb : DbFits T o.db db') : Fits T puts o (o'.setView db') := by
  obtain ⟨db, tx, cluster⟩ := o'
  cases tx with
  | none => exact ⟨hdb, fun _ h' => (nomatch h'), h.cluster⟩
  | some _ => exact ⟨h.db, fun _ h' => some.inj h' ▸ hdb, h.cluster⟩

/-- Everything that has changed belongs to the workspaces `T`, and to no others. -/
theorem Fits.concerns_iff {o o' : Office} (h : Fits T puts o o') {thing : Thing}
    (hchanged : Changed o o' thing) (w : String) : Concerns o o' thing w ↔ T w := by
  cases thing with
  | workspace id => exact h.db.workspaces id hchanged w
  | peer key => exact h.cluster.peers key hchanged w
  | policy key => exact h.cluster.policies key hchanged w
  | member key =>
    have hall := h.db.members key hchanged
    constructor
    · rintro ⟨m, hm, hw⟩
      exact (hall m hm w).mp hw
    · intro hw
      obtain ⟨m, hm⟩ := exists_of_ne hchanged
      exact ⟨m, hm, (hall m hm w).mpr hw⟩
  | peering name =>
    have hall := h.cluster.peerings name hchanged
    constructor
    · rintro ⟨p, hp, hw⟩
      exact (hall p hp w).mp hw
    · intro hw
      obtain ⟨p, hp⟩ := exists_of_ne hchanged
      exact ⟨p, hp, (hall p hp w).mpr hw⟩

/-! ## Calls -/

/-- A statement changes rows of the workspaces `T` only, and no namespace. -/
def DbCall.Licensed (T : String → Prop) : DbCall → Prop
  | .createWorkspace _ => False
  | .updateWorkspace id row => (∀ w, w = id ↔ T w) ∧ row.ns = namespaceOf id
  | .deleteWorkspace id => ∀ w, w = id ↔ T w
  | .addMember row => ∀ w, w = row.workspaceId ↔ T w
  | .updateRole id _ _ => ∀ w, w = id ↔ T w
  | .softRemove id _ => ∀ w, w = id ↔ T w
  | .deleteByWorkspace id => ∀ w, w = id ↔ T w
  | _ => True

/-- A request changes objects in the namespaces of the workspaces `T` only, and puts policies only
if `puts`. -/
structure KubeCall.Licensed (T : String → Prop) (puts : Prop) (o : Office) (c : KubeCall) :
    Prop where
  writes : ∀ ns, c.writes = some ns → ∀ w, Owns o.db w ns ↔ T w
  creates : ∀ name p, c = .createPeering name p → ∀ w, p.Joins o.db w ↔ T w
  deletes : ∀ name p, c = .deletePeering name → o.cluster.peerings.lookup name = some p →
    ∀ w, p.Joins o.db w ↔ T w
  puts : ∀ key, c.putsPolicy = some key → puts

variable {c : KubeCall}

/-- A request that has nothing to do with peerings. -/
theorem KubeCall.Licensed.of_writes {o : Office} (hpeering : c.writesPeering = none)
    (hputs : ∀ key, c.putsPolicy = some key → puts)
    (hwrites : ∀ ns, c.writes = some ns → ∀ w, Owns o.db w ns ↔ T w) : c.Licensed T puts o where
  writes := hwrites
  puts := hputs
  creates name p h := by
    subst h
    cases hpeering
  deletes name p h := by
    subst h
    cases hpeering

theorem KubeCall.Licensed.createPeering {o : Office} (name : String) {p : Peering}
    (h : ∀ w, p.Joins o.db w ↔ T w) : (createPeering name p).Licensed T puts o where
  writes _ hwrites := by cases hwrites
  puts _ hputs := by cases hputs
  creates name' p' heq := by
    cases heq
    exact h
  deletes _ _ heq := by cases heq

theorem KubeCall.Licensed.deletePeering {o : Office} {name : String}
    (h : ∀ p, o.cluster.peerings.lookup name = some p → ∀ w, p.Joins o.db w ↔ T w) :
    (deletePeering name).Licensed T puts o where
  writes _ hwrites := by cases hwrites
  puts _ hputs := by cases hputs
  creates _ _ heq := by cases heq
  deletes name' p heq := by
    cases heq
    exact h p

/-- A call whose changes concern the workspaces `T` of an office. -/
def OfficeCall.Licensed (T : String → Prop) (puts : Prop) (o : Office) : OfficeCall → Prop
  | .db c => c.Licensed T
  | .kube c => c.Licensed T puts o
  | _ => True

/-- What the answers to reads say about a database. -/
def Sound (db : Database) : (c : OfficeCall) → c.Res → Prop
  | .db (.getWorkspace id), r => ∀ ws, r = .ok ws →
      (∃ row, db.workspaces.lookup id = some row) ∧ ws.ns = namespaceOf id
  | .kube (.getPeer key), r => ∀ p, r = .ok p → p.metadata.key = key
  | _, _ => True

theorem DbFits.tidy {db db' : Database} (h : DbFits T db db') (htidy : Tidy db) : Tidy db' := by
  intro id ws' hws'
  obtain ⟨ws, hws, hns⟩ := h.rows id ws' hws'
  exact hns.trans (htidy id ws hws)

theorem updatedWorkspace_ns {new old : Workspace} (h : new.ns = old.ns) :
    (Database.updatedWorkspace new old).ns = old.ns := by
  unfold Database.updatedWorkspace
  dsimp only
  split_ifs
  · rfl
  · exact h

/-- A licensed statement. -/
theorem DbCall.fits_apply {c : DbCall} (hc : c.Licensed T) {db db' : Database} (htidy : Tidy db)
    {uuid : String} {a : c.Res} (h : c.apply uuid db = .ok (a, db')) : DbFits T db db' := by
  have hsame := sameBut_apply h
  cases c with
  | createWorkspace row => exact hc.elim
  | updateWorkspace id row =>
    cases h
    refine .of_workspace hc.1 fun ws hws => updatedWorkspace_ns ?_
    exact hc.2.trans (htidy id ws hws).symm
  | deleteWorkspace id =>
    simp only [apply] at h
    split_ifs at h
    cases h
    exact .of_workspace hc fun _ _ => rfl
  | addMember row =>
    obtain ⟨hfree, -, rfl⟩ := created_eq_ok h
    exact .of_addMember hfree hc
  | updateRole id userId role | softRemove id userId =>
    cases h
    refine .of_members hc (fun key m htest => ?_) fun _ => rfl
    exact of_decide_eq_true (Bool.and_eq_true_iff.mp (Bool.and_eq_true_iff.mp htest).1).2
  | deleteByWorkspace id =>
    simp only [apply] at h
    split_ifs at h
    cases h
    refine .of_members hc (fun key m htest => ?_) fun _ => rfl
    exact of_decide_eq_true (Bool.and_eq_true_iff.mp htest).2
  | _ =>
    exact .of_same (hsame.workspaces (by simp [writes]))
      (hsame.members (by simp [writes]))

variable {t : Turn}

/-- A licensed request. -/
theorem KubeCall.fits_apply {o : Office} (hc : c.Licensed T puts o) {cl cl' : Cluster}
    (hcl : ClusterFits T puts o.db o.cluster cl) {a : c.Res} (h : c.apply t cl = .ok (a, cl')) :
    ClusterFits T puts o.db cl cl' := by
  have hframe := frame_apply h
  refine ⟨fun key hne => ?_, fun key hne => ?_, fun name hne => ?_, fun hnot key p hp => ?_⟩
  · by_contra hnot
    exact hne (hframe.peers key fun hw => hnot (hc.writes key.ns hw))
  · by_contra hnot
    exact hne (hframe.policies key fun hw => hnot (hc.writes key.ns hw))
  · have hwrites : c.writesPeering = some name := by
      by_contra hother
      exact hne (hframe.peerings name hother)
    cases c with
    | createPeering name' p =>
      cases hwrites
      simp only [apply, Cluster.createPeering] at h
      cases hold : cl.peerings.lookup name with
      | some q => simp [hold] at h
      | none =>
        rw [hold] at h
        cases h
        intro q hq
        rcases hq with hq | hq
        · cases hq
        · rw [AList.lookup_insert, some_inj] at hq
          exact hq ▸ hc.creates name p rfl
    | deletePeering name' =>
      cases hwrites
      simp only [apply, Cluster.deletePeering] at h
      cases hold : cl.peerings.lookup name with
      | none => simp [hold] at h
      | some q =>
        rw [hold] at h
        cases h
        intro q' hq'
        obtain rfl : q = q' := by simpa using hq'
        -- the peering is the one of the beginning, or one that fits
        by_cases heq : cl.peerings.lookup name = o.cluster.peerings.lookup name
        · exact hc.deletes name q rfl (heq ▸ hold)
        · exact hcl.peerings name heq q (.inr hold)
    | _ => cases hwrites
  · exact (hframe.puts key p hp).resolve_right fun h => hnot (hc.puts key h)

/-- A workspace that is found was there before, and has the namespace of its identifier. -/
theorem Fits.sound_db {o o' : Office} (h : Fits T puts o o') (htidy : Tidy o.db) {c : DbCall} :
    Sound o.db (.db c) (execOffice (.db c) t o').1 := by
  cases c with
  | getWorkspace id =>
    intro ws hws
    have happly := (Turn.answer_eq_ok (s := o'.view) hws).1
    have hlive := (foundRow_map_eq_ok happly).1
    have hlookup : o'.view.workspaces.lookup id = some ws := (filter_eq_some_iff.mp hlive).1
    obtain ⟨row, hrow, -⟩ := h.view.rows id ws hlookup
    exact ⟨⟨row, hrow⟩, h.view.tidy htidy id ws hlookup⟩
  | _ => trivial

theorem sound_kube {db : Database} {o' : Office} :
    Sound db (.kube c) (execOffice (.kube c) t o').1 := by
  cases c with
  | getPeer key =>
    intro p hp
    have happly := (Turn.answer_eq_ok (s := o'.cluster) hp).1
    exact Table.key_of_get (foundObject_map_eq_ok happly).1
  | _ => trivial

/-- **Step.** A licensed call leaves an office that fits, and answers soundly. -/
theorem fits_execOffice {o o' : Office} (htidy : Tidy o.db) {c : OfficeCall}
    (hc : c.Licensed T puts o) (t : Turn) (h : Fits T puts o o') :
    Sound o.db c (execOffice c t o').1 ∧ Fits T puts o (execOffice c t o').2 := by
  cases c with
  | db c =>
    refine ⟨h.sound_db htidy, h.setView (h.view.trans ?_)⟩
    exact t.answer_state (.refl T _) fun _ _ => fits_apply hc (h.view.tidy htidy)
  | kube c =>
    refine ⟨sound_kube, h.db, h.tx, h.cluster.trans ?_⟩
    exact t.answer_state (.refl T puts _ _) fun _ _ => fits_apply hc h.cluster
  | begin =>
    refine ⟨trivial, ?_⟩
    change Fits T puts o (if t.fault.isNone then _ else o')
    split_ifs
    · exact ⟨h.db, fun db' h' => some.inj h' ▸ h.db, h.cluster⟩
    · exact h
  | commit =>
    refine ⟨trivial, ?_⟩
    rcases execOffice_commit t o' with hkept | hdropped
    · rw [hkept]
      exact ⟨h.view, fun _ h' => (nomatch h'), h.cluster⟩
    · rw [hdropped]
      exact ⟨h.db, fun _ h' => (nomatch h'), h.cluster⟩
  | rollback => exact ⟨trivial, h.db, fun _ h' => (nomatch h'), h.cluster⟩
  | _ => exact ⟨trivial, h⟩

/-! ## Programs -/

/-- Every call is licensed, whatever the sound answers to the calls before it. -/
def Fitting {α : Type} (T : String → Prop) (puts : Prop) (o : Office) (p : OfficeProg α) :
    Prop :=
  p.Obeys (Sound o.db) (OfficeCall.Licensed T puts o) fun _ => True

section Fitting

variable {α β : Type} {o : Office}

theorem fitting_ret (a : α) : Fitting T puts o (.ret a) := trivial

theorem fitting_call (c : OfficeCall) (hc : c.Licensed T puts o) : Fitting T puts o c.issue :=
  ⟨hc, fun _ _ => trivial⟩

theorem fitting_db (c : DbCall) (hc : c.Licensed T) : Fitting T puts o c.issue :=
  ⟨hc, fun _ _ => trivial⟩

theorem fitting_kube (hc : c.Licensed T puts o) : Fitting T puts o c.issue :=
  ⟨hc, fun _ _ => trivial⟩

theorem Fitting.bind {p : OfficeProg α} {f : α → OfficeProg β} (hp : Fitting T puts o p)
    (hf : ∀ a, Fitting T puts o (f a)) : Fitting T puts o (p >>= f) :=
  obeys_bind hp fun a _ => hf a

theorem Fitting.unwrap {p : OfficeProg (Except GoError α)}
    {f : α → OfficeProg (Except GoError β)} (hp : Fitting T puts o p)
    (hf : ∀ a, Fitting T puts o (f a)) : Fitting T puts o (p.unwrap f) :=
  obeys_unwrap hp (fun _ _ => trivial) fun a _ => hf a

theorem Fitting.mapError {p : OfficeProg (Except GoError α)} {g : GoError → GoError}
    (hp : Fitting T puts o p) : Fitting T puts o (p.mapError g) :=
  hp.bind fun _ => fitting_ret _

theorem Fitting.transaction {body : OfficeProg (Except GoError α)} (hbody : Fitting T puts o body) :
    Fitting T puts o (transaction body) := by
  refine (fitting_call .begin trivial).unwrap fun _ => hbody.bind fun r => ?_
  cases r with
  | error err => exact (fitting_call .rollback trivial).bind fun _ => fitting_ret _
  | ok a => exact (fitting_call .commit trivial).unwrap fun _ => fitting_ret _

variable {f : Workspace → OfficeProg (Except GoError β)}

/-- Whoever reads a workspace row goes on with the namespace of the workspace. -/
theorem fitting_mapError_getWorkspace {id : String} {g : GoError → GoError}
    (hf : ∀ ws row, o.db.workspaces.lookup id = some row → ws.ns = namespaceOf id →
      Fitting T puts o (f ws)) :
    Fitting T puts o (((getWorkspace id).issue.mapError g).unwrap f) := by
  have hread : ((getWorkspace id).issue.mapError g).Obeys (Sound o.db)
      (OfficeCall.Licensed T puts o) (Sound o.db (.db (.getWorkspace id))) := by
    refine obeys_bind (obeys_perform trivial) fun r hr => ?_
    cases r with
    | error err => exact nofun
    | ok ws => exact hr
  refine obeys_unwrap hread (fun _ _ => trivial) fun ws hws => ?_
  obtain ⟨⟨row, hrow⟩, hns⟩ := hws ws rfl
  exact hf ws row hrow hns

theorem fitting_getWorkspace {id : String}
    (hf : ∀ ws row, o.db.workspaces.lookup id = some row → ws.ns = namespaceOf id →
      Fitting T puts o (f ws)) :
    Fitting T puts o ((getWorkspace id).issue.unwrap f) := by
  refine obeys_unwrap (obeys_perform trivial) (fun _ _ => trivial) fun ws hws => ?_
  obtain ⟨⟨row, hrow⟩, hns⟩ := hws ws rfl
  exact hf ws row hrow hns

/-- Whoever reads a peer goes on with a peer of that name. -/
theorem fitting_getPeer {key : NamespacedName} {f : LatticePeer → OfficeProg (Except GoError β)}
    (hf : ∀ p, p.metadata.key = key → Fitting T puts o (f p)) :
    Fitting T puts o ((getPeer key).issue.unwrap f) := by
  have hread : (getPeer key).Licensed T puts o :=
    .of_writes rfl nofun nofun
  exact obeys_unwrap (obeys_perform hread)
    (fun _ _ => trivial) fun p hp => hf p (hp p rfl)

/-- **Run.** What a program does at a desk concerns the workspaces `T`, if all its calls are
licensed. -/
theorem Fitting.run {p : OfficeProg α} (hp : Fitting T puts o p) (htidy : Tidy o.db) {d : Desk}
    (hd : Fits T puts o d.office) : Fits T puts o (p.run attend d).2.office :=
  (run_obeys (I := fun d : Desk => Fits T puts o d.office) hp
    (fun _ d hc h => fits_execOffice htidy hc (d.turns 0) h) hd).2

theorem fitting_read (c : KubeCall) (hpeering : c.writesPeering = none)
    (hputs : c.putsPolicy = none) (hc : c.writes = none) : Fitting T puts o c.issue :=
  fitting_kube (.of_writes hpeering (fun _ h => by cases hputs.symm.trans h)
    fun _ h => by cases hc.symm.trans h)

section Write

variable (htidy : Tidy o.db) {id : String} {row : Workspace}
  (hrow : o.db.workspaces.lookup id = some row)

include htidy hrow

/-- A write in the namespace of a workspace, of something other than a policy. -/
theorem fitting_write (hpeering : c.writesPeering = none) (hputs : c.putsPolicy = none)
    (hc : c.writes = some (namespaceOf id)) :
    Fitting (· = id) puts o c.issue := by
  refine fitting_kube (.of_writes hpeering (fun _ h => ?_) fun ns h w => ?_)
  · cases hputs.symm.trans h
  · rw [← some.inj (hc.symm.trans h)]
    exact owns_namespaceOf_iff htidy hrow w

/-- A policy is put in the namespace of a workspace. -/
theorem fitting_applyPolicy (hputs : puts) {obj : LatticePolicy}
    (hobj : obj.metadata.ns = namespaceOf id) :
    Fitting (· = id) puts o (applyPolicy obj).issue := by
  refine fitting_kube (.of_writes rfl (fun _ _ => hputs) fun ns h w => ?_)
  rw [← some.inj h, hobj]
  exact owns_namespaceOf_iff htidy hrow w

end Write

end Fitting

end Wireflow.Server
