/-
# What statements and requests leave alone

A statement changes at most one table (`DbCall.writes`), a request at most the objects of one
namespace (`KubeCall.writes`) or one peering. A failing call changes what it would have changed, or
nothing.
-/

import Wireflow.Server.Office

namespace Wireflow.Server

open Sql (Rows)
open Wireflow.Api Table DbCall KubeCall

inductive TableName
  | users
  | workspaces
  | members
  | policies
  | requests
  | invitations
  deriving DecidableEq

/-- The table that a statement may change. -/
def DbCall.writes : DbCall → Option TableName
  | .createUser _ => some .users
  | .deleteUser _ => some .users
  | .createWorkspace _ => some .workspaces
  | .updateWorkspace _ _ => some .workspaces
  | .deleteWorkspace _ => some .workspaces
  | .addMember _ => some .members
  | .updateRole _ _ _ => some .members
  | .softRemove _ _ => some .members
  | .deleteByWorkspace _ => some .members
  | .createPolicy _ => some .policies
  | .updatePolicy _ _ => some .policies
  | .deletePolicy _ _ => some .policies
  | .createRequest _ => some .requests
  | .updateStatus _ _ _ => some .requests
  | .deleteRequest _ => some .requests
  | .createInvitation _ => some .invitations
  | .updateInvitation _ _ => some .invitations
  | _ => none

/-- Two databases that differ in one table at most. -/
structure SameBut (w : Option TableName) (db db' : Database) : Prop where
  users : w ≠ some .users → db'.users = db.users
  workspaces : w ≠ some .workspaces → db'.workspaces = db.workspaces
  members : w ≠ some .members → db'.members = db.members
  policies : w ≠ some .policies → db'.policies = db.policies
  requests : w ≠ some .requests → db'.requests = db.requests
  invitations : w ≠ some .invitations → db'.invitations = db.invitations

theorem SameBut.refl (w : Option TableName) (db : Database) : SameBut w db db :=
  ⟨fun _ => rfl, fun _ => rfl, fun _ => rfl, fun _ => rfl, fun _ => rfl, fun _ => rfl⟩

/-- A query returns what it found and changes nothing. -/
theorem foundRow_map_eq_ok {α : Type} {row : Option α} {db db' : Database} {a : α}
    (h : (foundRow row).map (·, db) = .ok (a, db')) : row = some a ∧ db' = db := by
  cases row with
  | none => cases h
  | some b =>
    cases h
    exact ⟨rfl, rfl⟩

/-- An insertion found its key free. -/
theorem created_eq_ok {α : Type} {t : Rows α} {id id' : String} {row : α}
    {store : Rows α → Database} {db' : Database}
    (h : created t id row store = .ok (id', db')) :
    t.lookup id = none ∧ id' = id ∧ db' = store (t.insert id row) := by
  unfold created at h
  cases hcreate : t.create id row with
  | none => simp [hcreate] at h
  | some t' =>
    obtain ⟨hfree, rfl⟩ := Rows.create_eq_some hcreate
    rw [hcreate] at h
    cases h
    exact ⟨hfree, rfl, rfl⟩

theorem putPolicy_eq_some {db db' : Database} {id : String} {row : PolicyRecord}
    (h : db.putPolicy id row = some db') :
    ∃ hfree : ¬db.policies.Clashes id row,
      db' = { db with policies := db.policies.put id row hfree } := by
  unfold Database.putPolicy at h
  split_ifs at h with hclash
  exact ⟨hclash, (Option.some.inj h).symm⟩

/-- **Footprint of a statement.** -/
theorem DbCall.sameBut_apply {c : DbCall} {uuid : String} {db db' : Database} {a : c.Res}
    (h : c.apply uuid db = .ok (a, db')) : SameBut c.writes db db' := by
  cases c with
  | createUser row | createWorkspace row | addMember row | createRequest row =>
    obtain ⟨-, -, rfl⟩ := created_eq_ok h
    constructor <;> simp [writes]
  | createInvitation row =>
    simp only [apply] at h
    split_ifs at h
    obtain ⟨-, -, rfl⟩ := created_eq_ok h
    constructor <;> simp [writes]
  | createPolicy row =>
    simp only [apply] at h
    split_ifs at h
    cases hput : db.putPolicy uuid row with
    | none => simp [hput] at h
    | some db'' =>
      obtain ⟨hfree, rfl⟩ := putPolicy_eq_some hput
      rw [hput] at h
      cases h
      constructor <;> simp [writes]
  | updatePolicy id row =>
    simp only [apply] at h
    cases hput : db.putPolicy id row with
    | none => simp [hput] at h
    | some db'' =>
      obtain ⟨hfree, rfl⟩ := putPolicy_eq_some hput
      rw [hput] at h
      cases h
      constructor <;> simp [writes]
  | deleteUser id | deleteWorkspace id | deleteByWorkspace id =>
    simp only [apply] at h
    split_ifs at h
    cases h
    constructor <;> simp [writes]
  | updateWorkspace _ _ | updateRole _ _ _ | softRemove _ _ | deletePolicy _ _
  | updateStatus _ _ _ | deleteRequest _ | updateInvitation _ _ =>
    cases h
    constructor <;> simp [writes]
  | existsByUserAndSlug userId slug =>
    cases h
    exact .refl _ _
  | getUser _ | getUserByEmail _ | getUserByUsername _ | getWorkspace _
  | getWorkspaceByNamespace _ | getMembership _ _ | getPolicy _ | getPolicyByName _ _
  | getRequest _ | findInvitation _ | getByToken _ | getPendingByEmailAndWorkspace _ _ =>
    obtain ⟨-, rfl⟩ := foundRow_map_eq_ok h
    exact .refl _ _

/-! ## Requests -/

/-- The namespace whose objects a request may change. -/
def KubeCall.writes : KubeCall → Option String
  | .createNamespace name => some name
  | .deleteNamespace name => some name
  | .createQuota key => some key.ns
  | .createRoleBinding key => some key.ns
  | .createNetwork obj => some obj.metadata.ns
  | .createPolicy obj => some obj.metadata.ns
  | .applyPolicy obj => some obj.metadata.ns
  | .deletePolicy key => some key.ns
  | .updatePeer obj => some obj.metadata.ns
  | .deletePeer key => some key.ns
  | .deleteConfigMap key => some key.ns
  | .createToken obj => some obj.metadata.ns
  | .deleteToken key => some key.ns
  | _ => none

/-- The policy that a request may create or change. -/
def KubeCall.putsPolicy : KubeCall → Option NamespacedName
  | .createPolicy obj => some obj.metadata.key
  | .applyPolicy obj => some obj.metadata.key
  | _ => none

/-- The peering that a request creates or deletes. -/
def KubeCall.writesPeering : KubeCall → Option String
  | .createPeering name _ => some name
  | .deletePeering name => some name
  | _ => none

/-- What a request leaves alone. -/
structure KubeFrame (c : KubeCall) (cl cl' : Cluster) : Prop where
  namespaces : (∀ name, c ≠ .deleteNamespace name) → cl.namespaces ⊆ cl'.namespaces
  peers : ∀ key : NamespacedName, c.writes ≠ some key.ns →
    cl'.store.peers.get key = cl.store.peers.get key
  policies : ∀ key : NamespacedName, c.writes ≠ some key.ns →
    cl'.store.policies.get key = cl.store.policies.get key
  puts : ∀ key p, cl'.store.policies.get key = some p →
    cl.store.policies.get key = some p ∨ c.putsPolicy = some key
  peerings : ∀ name, c.writesPeering ≠ some name →
    cl'.peerings.lookup name = cl.peerings.lookup name

theorem KubeFrame.refl (c : KubeCall) (cl : Cluster) : KubeFrame c cl cl :=
  ⟨fun _ => List.Subset.refl _, fun _ _ => rfl, fun _ _ => rfl, fun _ _ h => .inl h,
    fun _ _ => rfl⟩

/-- A request that writes one policy. -/
theorem KubeFrame.of_putPolicy {c : KubeCall} {cl cl' : Cluster} {p : LatticePolicy}
    (hputs : c.putsPolicy = some p.metadata.key) (hwrites : c.writes = some p.metadata.ns)
    (hcl : cl' = { cl with store.policies := cl.store.policies.put p,
                           policyOwners := cl'.policyOwners }) : KubeFrame c cl cl' := by
  rw [hcl]
  refine { refl c cl with policies := fun key hkey => ?_, puts := fun key q h => ?_ }
  · refine get_put_ne fun heq => hkey ?_
    rw [hwrites, heq]
    rfl
  · by_cases heq : key = p.metadata.key
    · exact .inr (hputs.trans (congrArg some heq.symm))
    · exact .inl ((get_put_ne heq).symm.trans h)

theorem inNamespace_eq_ok {β : Type} {cl : Cluster} {ns : String} {r : Except GoError β} {b : β}
    (h : cl.inNamespace ns r = .ok b) : r = .ok b := by
  unfold Cluster.inNamespace at h
  split_ifs at h
  exact h

/-- A read returns what it found and changes nothing. -/
theorem foundObject_map_eq_ok {α : Type} {resource name : String} {obj : Option α}
    {cl cl' : Cluster} {a : α}
    (h : (foundObject resource name obj).map (·, cl) = .ok (a, cl')) : obj = some a ∧ cl' = cl := by
  cases obj with
  | none => cases h
  | some b =>
    cases h
    exact ⟨rfl, rfl⟩

/-- **Footprint of a request.** -/
theorem KubeCall.frame_apply {c : KubeCall} {t : Turn} {cl cl' : Cluster} {a : c.Res}
    (h : c.apply t cl = .ok (a, cl')) : KubeFrame c cl cl' := by
  cases c with
  | createNamespace name =>
    simp only [apply, Cluster.createNamespace] at h
    split_ifs at h
    cases h
    exact { KubeFrame.refl _ cl with namespaces := fun _ => List.subset_cons_self _ _ }
  | deleteNamespace name =>
    simp only [apply, Cluster.deleteNamespace] at h
    split_ifs at h
    cases h
    have hother : ∀ key : NamespacedName, some name ≠ some key.ns → ¬(key.ns == name) = true :=
      fun key hkey heq => hkey (congrArg some (beq_iff_eq.mp heq).symm)
    refine ⟨fun hne => absurd rfl (hne name), fun key hkey => ?_, fun key hkey => ?_,
      fun key p hp => ?_, fun _ _ => rfl⟩
    · exact (get_dropNamespace _ _ _).trans (if_neg (hother key hkey))
    · exact (get_dropNamespace _ _ _).trans (if_neg (hother key hkey))
    · rw [get_dropNamespace] at hp
      split_ifs at hp
      exact .inl hp
  | createQuota key | createRoleBinding key =>
    have h := inNamespace_eq_ok h
    split_ifs at h
    cases h
    exact { KubeFrame.refl _ cl with }
  | createNetwork obj | createToken obj =>
    have h := inNamespace_eq_ok h
    split at h
    · cases h
    · cases h
      exact { KubeFrame.refl _ cl with }
  | createPolicy obj =>
    have h := inNamespace_eq_ok h
    split at h
    · cases h
    · cases h
      exact .of_putPolicy rfl rfl rfl
  | applyPolicy obj =>
    have h := inNamespace_eq_ok h
    cases hget : cl.store.policies.get obj.metadata.key with
    | none =>
      rw [hget] at h
      cases h
      exact .of_putPolicy rfl rfl rfl
    | some current =>
      rw [hget] at h
      dsimp only at h
      have hkey : current.metadata.key = obj.metadata.key := key_of_get hget
      cases hspec : applyPolicySpec (cl.policyOwners obj.metadata.key) obj current with
      | none => simp [hspec] at h
      | some spec =>
        rw [hspec] at h
        cases h
        exact .of_putPolicy (p := Cluster.appliedPolicy obj current spec)
          (congrArg some hkey.symm) (congrArg (some ∘ NamespacedName.ns) hkey.symm) rfl
  | deletePolicy key =>
    simp only [apply, Cluster.deletePolicy] at h
    split at h
    · cases h
    · cases h
      refine { KubeFrame.refl _ cl with policies := fun k hk => ?_, puts := fun k p hp => ?_ }
      · exact get_erase_ne fun heq => hk (by rw [heq, writes])
      · by_cases heq : k = key
        · subst heq
          rw [get_erase_self] at hp
          cases hp
        · rw [get_erase_ne heq] at hp
          exact .inl hp
  | updatePeer obj =>
    simp only [apply, Cluster.updatePeer] at h
    cases hupdate : cl.store.updatePeer obj with
    | error err =>
      rw [hupdate] at h
      cases h
    | ok r =>
      rw [hupdate] at h
      cases h
      obtain ⟨current, -, hkey, hstore | hstore⟩ := Store.updatePeer_eq_ok hupdate <;> rw [hstore]
      · refine { KubeFrame.refl _ cl with peers := fun k hk => get_put_ne fun heq => hk ?_ }
        exact congrArg (some ∘ NamespacedName.ns) (heq.trans hkey).symm
      · refine { KubeFrame.refl _ cl with peers := fun k hk => get_erase_ne fun heq => hk ?_ }
        exact congrArg (some ∘ NamespacedName.ns) (heq.trans hkey).symm
  | deletePeer key =>
    simp only [apply, Cluster.deletePeer] at h
    cases hget : cl.store.peers.get key with
    | none =>
      rw [hget] at h
      cases h
    | some p =>
      have hkey : p.metadata.key = key := key_of_get hget
      rw [hget] at h
      cases h
      refine { KubeFrame.refl _ cl with peers := fun k hk => ?_ }
      have hne : k ≠ key := fun heq => hk (by rw [heq, writes])
      dsimp only
      split_ifs
      · exact get_erase_ne hne
      · exact get_put_ne fun heq => hne (heq.trans hkey)
  | deleteConfigMap key | deleteToken key =>
    simp only [apply, Cluster.deleteConfigMap, Cluster.deleteToken] at h
    split at h
    · cases h
    · cases h
      exact { KubeFrame.refl _ cl with }
  | createPeering name p =>
    simp only [apply, Cluster.createPeering] at h
    split at h
    · cases h
    · cases h
      refine { KubeFrame.refl _ cl with peerings := fun n hn => ?_ }
      exact AList.lookup_insert_ne fun heq => hn (congrArg some heq.symm)
  | deletePeering name =>
    simp only [apply, Cluster.deletePeering] at h
    split at h
    · cases h
    · cases h
      refine { KubeFrame.refl _ cl with peerings := fun n hn => ?_ }
      exact AList.lookup_erase_ne fun heq => hn (congrArg some heq.symm)
  | listNetworks ns =>
    cases h
    exact .refl _ _
  | getNetwork _ | getPolicy _ | getPeer _ | getConfigMap _ | getToken _ | getPeering _ =>
    obtain ⟨-, rfl⟩ := foundObject_map_eq_ok h
    exact .refl _ _

/-! ## Answers -/

variable {α σ : Type}

/-- A call leaves what it would have left or what was there, and an answer without an error is
that of a call that took effect. -/
theorem Turn.answer_cases (t : Turn) (s : σ) (r : Except GoError (α × σ)) :
    (∃ err, t.answer s r = (.error err, s)) ∨
      ∃ a s', r = .ok (a, s') ∧
        (t.answer s r = (.ok a, s') ∨ ∃ err, t.answer s r = (.error err, s')) := by
  unfold Turn.answer
  cases r with
  | error err => exact .inl ⟨_, rfl⟩
  | ok value =>
    obtain ⟨a, s'⟩ := value
    cases t.fault with
    | none => exact .inr ⟨a, s', rfl, .inl rfl⟩
    | some err =>
      dsimp only
      by_cases hlost : t.lost = true
      · rw [if_pos hlost]
        exact .inr ⟨a, s', rfl, .inr ⟨err, rfl⟩⟩
      · rw [if_neg hlost]
        exact .inl ⟨err, rfl⟩

/-- What holds before a call and after its effect holds after it. -/
theorem Turn.answer_state {P : σ → Prop} (t : Turn) {s : σ} {r : Except GoError (α × σ)} (hs : P s)
    (hr : ∀ a s', r = .ok (a, s') → P s') :
    P (t.answer s r).2 := by
  rcases t.answer_cases s r with ⟨err, herr⟩ | ⟨a, s', heq, hok | ⟨err, herr⟩⟩
  · exact herr ▸ hs
  · exact hok ▸ hr a s' heq
  · exact herr ▸ hr a s' heq

/-- What an answer without an error says. -/
theorem Turn.answer_eq_ok {t : Turn} {s : σ} {r : Except GoError (α × σ)} {a : α}
    (h : (t.answer s r).1 = .ok a) : r = .ok (a, (t.answer s r).2) ∧ t.fault = none := by
  unfold Turn.answer at h ⊢
  cases r with
  | error err => cases h
  | ok value =>
    cases hfault : t.fault with
    | none =>
      rw [hfault] at h
      cases h
      exact ⟨rfl, rfl⟩
    | some err =>
      rw [hfault] at h
      cases h

/-- The footprint of a statement, whether it is answered or not. -/
theorem sameBut_execOffice (c : DbCall) (t : Turn) (o : Office) :
    SameBut c.writes o.view (execOffice (.db c) t o).2.view := by
  change SameBut c.writes o.view
    (o.setView (t.answer o.view (c.apply t.fresh o.view)).2).view
  rw [Office.view_setView]
  exact t.answer_state (.refl _ _) fun _ _ => sameBut_apply

/-- The footprint of a request, whether it is answered or not. -/
theorem frame_execOffice (c : KubeCall) (t : Turn) (o : Office) :
    KubeFrame c o.cluster (execOffice (.kube c) t o).2.cluster :=
  t.answer_state (.refl _ _) fun _ _ => frame_apply

/-- A commit keeps the copy or drops it. -/
theorem execOffice_commit (t : Turn) (o : Office) :
    (execOffice .commit t o).2 = o.committed ∨
      (execOffice .commit t o).2 = { o with tx := none } := by
  refine t.answer_state (P := fun o' => o' = o.committed ∨ o' = { o with tx := none }) (.inr rfl) ?_
  rintro a o' hr
  cases hr
  exact .inl rfl

/-! ## Calls at a desk -/

section Desk

variable {d : Desk}

/-- The desk with the next turn taken. -/
def Desk.next (d : Desk) (o : Office) : Desk := { office := o, turns := fun n => d.turns (n + 1) }

@[simp] theorem Desk.next_office (o : Office) : (d.next o).office = o := rfl

@[simp] theorem Desk.next_turns (o : Office) (n : ℕ) : (d.next o).turns n = d.turns (n + 1) := rfl

@[simp] theorem Office.setView_view (o : Office) : o.setView o.view = o := by
  obtain ⟨db, tx, cluster⟩ := o
  cases tx <;> rfl

@[simp] theorem Office.setView_setView (o : Office) (db db' : Database) :
    (o.setView db).setView db' = o.setView db' := by
  obtain ⟨_, tx, _⟩ := o
  cases tx <;> rfl

/-- A query finds a row or fails, and changes nothing. -/
theorem DbCall.eq_of_writes_none {c : DbCall} (hc : c.writes = none) {uuid : String}
    {db db' : Database} {a : c.Res} (h : c.apply uuid db = .ok (a, db')) : db' = db := by
  have hsame := sameBut_apply h
  rw [hc] at hsame
  obtain ⟨h1, h2, h3, h4, h5, h6⟩ := hsame
  cases db
  cases db'
  simp only [Database.mk.injEq]
  exact ⟨h1 (by simp), h2 (by simp), h3 (by simp), h4 (by simp), h5 (by simp), h6 (by simp)⟩

theorem run_query {c : DbCall} (hc : c.writes = none) :
    c.issue.run attend d = ((c.issue.run attend d).1, d.next d.office) := by
  have hview : ((d.turns 0).answer d.office.view (c.apply (d.turns 0).fresh d.office.view)).2 =
      d.office.view :=
    (d.turns 0).answer_state (P := (· = d.office.view)) rfl fun _ _ =>
      eq_of_writes_none hc
  refine Prod.ext rfl ?_
  change Desk.next d (d.office.setView _) = d.next d.office
  rw [hview, Office.setView_view]

/-- A statement that is answered has been carried out. -/
theorem run_db_eq_ok {c : DbCall} {a : c.Res} (h : (c.issue.run attend d).1 = .ok a) :
    ∃ db', c.apply (d.turns 0).fresh d.office.view = .ok (a, db') ∧
      (d.turns 0).fault = none ∧
      c.issue.run attend d = (.ok a, d.next (d.office.setView db')) := by
  obtain ⟨happly, hfault⟩ := Turn.answer_eq_ok (s := d.office.view) h
  exact ⟨_, happly, hfault, Prod.ext h rfl⟩

/-- A request that is answered has been carried out. -/
theorem run_kube_eq_ok {c : KubeCall} {a : c.Res} (h : (c.issue.run attend d).1 = .ok a) :
    ∃ cl', c.apply (d.turns 0) d.office.cluster = .ok (a, cl') ∧ (d.turns 0).fault = none ∧
      c.issue.run attend d = (.ok a, d.next { d.office with cluster := cl' }) := by
  obtain ⟨happly, hfault⟩ := Turn.answer_eq_ok (s := d.office.cluster) h
  exact ⟨_, happly, hfault, Prod.ext h rfl⟩

/-- A query at a desk: the next turn is taken, nothing changes, and what is found is there. -/
theorem ensures_query {c : DbCall} (hc : c.writes = none) :
    c.issue.Ensures attend (fun r d' => d' = d.next d.office ∧
      ∀ a, r = .ok a → c.apply (d.turns 0).fresh d.office.view = .ok (a, d.office.view)) d := by
  refine ⟨congrArg Prod.snd (run_query hc), fun a ha => ?_⟩
  obtain ⟨db', happly, -⟩ := run_db_eq_ok ha
  rw [happly, eq_of_writes_none hc happly]

/-- A query whose error is replaced, and what follows it. -/
theorem ensures_query_unwrap {β : Type} {c : DbCall} (hc : c.writes = none)
    {g : GoError → GoError} {f : c.Res → OfficeProg (Except GoError β)}
    {post : Except GoError β → Desk → Prop} (herr : ∀ err, post (.error err) (d.next d.office))
    (hok : ∀ a, c.apply (d.turns 0).fresh d.office.view = .ok (a, d.office.view) →
      (f a).Ensures attend post (d.next d.office)) :
    ((c.issue.mapError g).unwrap f).Ensures attend post d := by
  have hquery : (c.issue.mapError g).Ensures attend (fun r d' => d' = d.next d.office ∧
      ∀ a, r = .ok a → c.apply (d.turns 0).fresh d.office.view = .ok (a, d.office.view)) d :=
    (ensures_query hc).mapError (fun e t h => ⟨h.1, nofun⟩) fun a t h => h
  refine hquery.unwrap (fun e t h => ?_) fun a t h => ?_
  · rw [h.1]
    exact herr e
  · rw [h.1]
    exact hok a (h.2 a rfl)

/-- A call to the process itself. -/
theorem ensures_local (c : OfficeCall) (hc : ∀ t o, (execOffice c t o).2 = o) :
    c.issue.Ensures attend (fun _ d' => d' = d.next d.office) d :=
  congrArg d.next (hc _ _)

/-- A statement at a desk: it has no effect and fails, or it has the effect it is for. -/
theorem ensures_statement (c : DbCall) :
    c.issue.Ensures attend (fun r d' =>
      (d' = d.next d.office ∧ ∃ err, r = .error err) ∨
        ∃ a db', c.apply (d.turns 0).fresh d.office.view = .ok (a, db') ∧
          d' = d.next (d.office.setView db') ∧ (r = .ok a ∨ ∃ err, r = .error err)) d := by
  change _ ∨ _
  have hrun : c.issue.run attend d =
      (((d.turns 0).answer d.office.view (c.apply (d.turns 0).fresh d.office.view)).1,
        d.next (d.office.setView
          ((d.turns 0).answer d.office.view (c.apply (d.turns 0).fresh d.office.view)).2)) := rfl
  rw [hrun]
  rcases (d.turns 0).answer_cases d.office.view (c.apply (d.turns 0).fresh d.office.view) with
    ⟨err, herr⟩ | ⟨a, db', hr, hok | ⟨err, herr⟩⟩
  · rw [herr]
    exact .inl ⟨congrArg d.next (Office.setView_view _), err, rfl⟩
  · rw [hok]
    exact .inr ⟨a, db', hr, rfl, .inl rfl⟩
  · rw [herr]
    exact .inr ⟨a, db', hr, rfl, .inr ⟨err, rfl⟩⟩

end Desk

end Wireflow.Server
