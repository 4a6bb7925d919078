/-
# The life of an invitation

Invitations are created, accepted and revoked while members come and go. What one operation can do
is said once for each (`ensures_create`, `accept_cases`, …), whatever calls fail.

Three things go wrong. `Revoke` does not look at the status, so an accepted invitation can become a
revoked one. `Create` and `Revoke` look at the role of a membership but not at its status, so an
admin who was removed still invites and revokes. And the membership that `Accept` adds is not the
one that counts if an earlier one is still in the table.
-/

import Wireflow.Semantics.Steps
import Wireflow.Server.Invitations
import Wireflow.Theorems.Server.Transactions

namespace Wireflow.Server

open Semantics Option
open Sql (Rows)
open Wireflow.Api

/-! ## Invitations by token -/

/-- The invitation that a token stands for. -/
def Database.invitationOf (db : Database) (token : String) :
    Option (String × WorkspaceInvitation) :=
  db.invitations.first fun i => !i.deleted && i.token = token

/-- The invitations with another status for one of them. -/
def withInvitationStatus (t : Rows WorkspaceInvitation) (id : String)
    (status : InvitationStatus) : Rows WorkspaceInvitation :=
  t.updateWhere (fun key i => !i.deleted && key = id) fun i => { i with status := status }

namespace Invitations

variable {d : Desk} {lib : InvitationLibrary}

/-! ## What each operation can do -/

theorem ensures_checkInviter (wsId inviterId : String) (role : WorkspaceRole) (inviter : User) :
    (checkInviter wsId inviterId role inviter).Ensures attend (fun r d' =>
      d'.office = d.office ∧ (r = .ok () → inviter.systemRole = .platformAdmin ∨
        MemberRow d.office.view wsId inviterId .admin fun _ => True)) d := by
  unfold checkInviter
  split_ifs with hadmin
  · exact ⟨rfl, fun _ => .inl hadmin⟩
  · refine ensures_query_unwrap rfl (fun err => ⟨rfl, nofun⟩) fun row hrow => ?_
    have hmember := (foundRow_map_eq_ok hrow).1
    dsimp only
    split_ifs with hrole hmore
    · exact ⟨rfl, nofun⟩
    · exact ⟨rfl, nofun⟩
    · exact ⟨rfl, fun _ => .inr ⟨row.1, row.2, hmember, trivial, not_lt.mp hrole⟩⟩

theorem ensures_checkAbsent {c : DbCall} (hc : c.writes = none) (text : String) :
    (c.issue >>= checkAbsent text).Ensures attend (fun _ d' => d'.office = d.office) d := by
  refine (ensures_query hc).bind fun r t h => ?_
  rw [h.1]
  cases r with
  | ok a => rfl
  | error err =>
    unfold checkAbsent
    dsimp only
    split_ifs <;> rfl

/-- `Create` inserts a pending invitation, for a platform admin or somebody with an admin's
membership, or does nothing. -/
theorem ensures_create (wsId inviterId email : String) (role : WorkspaceRole) :
    (create wsId inviterId email role).Ensures attend (fun _ d' =>
      d'.office = d.office ∨ ∃ id inv, d.office.view.invitations.lookup id = none ∧
        inv.workspaceId = wsId ∧
        (PlatformAdmin d.office.view inviterId ∨
          MemberRow d.office.view wsId inviterId .admin fun _ => True) ∧
        d'.office = d.office.setView
          { d.office.view with invitations := d.office.view.invitations.insert id inv }) d := by
  refine ensures_query_unwrap rfl (fun err => .inl rfl) fun inviter hinviter => ?_
  refine (ensures_checkInviter wsId inviterId role inviter).unwrap (fun _ _ h => .inl h.1)
    fun _ d₁ h₁ => ?_
  refine (ensures_checkAbsent rfl _).unwrap (fun _ _ h => .inl (h.trans h₁.1)) fun _ d₂ h₂ => ?_
  refine (ensures_local .generateToken fun _ _ => rfl).unwrap
    (fun _ _ h => .inl (h ▸ h₂.trans h₁.1)) fun token d₃ h₃ => ?_
  refine (ensures_local .now fun _ _ => rfl).bind fun time d₄ h₄ => ?_
  have hoffice : d₄.office = d.office := by rw [h₄, h₃]; exact h₂.trans h₁.1
  refine (ensures_statement _).mono fun r d' h => ?_
  rcases h with ⟨h, -⟩ | ⟨id, db', happly, h, -⟩
  · exact .inl (h ▸ hoffice)
  · rw [hoffice] at happly h
    simp only [DbCall.apply] at happly
    split_ifs at happly
    obtain ⟨hfree, -, rfl⟩ := created_eq_ok happly
    subst h
    refine .inr ⟨_, _, hfree, ?_, ?_, rfl⟩
    · rfl
    · exact (h₁.2 rfl).imp_left fun hadmin => ⟨inviter, getUser_eq_ok hinviter, hadmin⟩

theorem ensures_checkRevoker (callerId : String) (inv : WorkspaceInvitation) (caller : User) :
    (checkRevoker callerId inv caller).Ensures attend (fun r d' =>
      d'.office = d.office ∧ (r = .ok () → caller.systemRole = .platformAdmin ∨
        inv.inviterId = callerId ∨
          MemberRow d.office.view inv.workspaceId callerId .admin fun _ => True)) d := by
  unfold checkRevoker
  split_ifs with hadmin
  · exact ⟨rfl, fun _ => hadmin.imp_right .inl⟩
  · refine ensures_query_unwrap rfl (fun err => ⟨rfl, nofun⟩) fun row hrow => ?_
    have hmember := (foundRow_map_eq_ok hrow).1
    dsimp only
    split_ifs with hrole
    · exact ⟨rfl, nofun⟩
    · exact ⟨rfl, fun _ => .inr (.inr ⟨row.1, row.2, hmember, trivial, not_lt.mp hrole⟩)⟩

/-- `Revoke` marks an invitation as revoked, for a platform admin, the inviter or somebody with an
admin's membership, or does nothing. -/
theorem ensures_revoke (callerId id : String) :
    (revoke callerId id).Ensures attend (fun _ d' =>
      d'.office = d.office ∨
        ∃ inv, live WorkspaceInvitation.deleted d.office.view.invitations id = some inv ∧
          (PlatformAdmin d.office.view callerId ∨ inv.inviterId = callerId ∨
            MemberRow d.office.view inv.workspaceId callerId .admin fun _ => True) ∧
          d'.office = d.office.setView { d.office.view with
            invitations := withInvitationStatus d.office.view.invitations id .revoked }) d := by
  refine ensures_query_unwrap rfl (fun err => .inl rfl) fun inv hinv => ?_
  refine ensures_query_unwrap rfl (fun err => .inl rfl) fun caller hcaller => ?_
  refine (ensures_checkRevoker callerId inv caller).unwrap (fun _ _ h => .inl h.1)
    fun _ d₁ h₁ => ?_
  have hoffice : d₁.office = d.office := h₁.1
  refine (ensures_statement _).mono fun r d' h => ?_
  rcases h with ⟨h, -⟩ | ⟨value, db', happly, h, -⟩
  · exact .inl (h ▸ hoffice)
  · rw [hoffice] at happly h
    cases happly
    subst h
    refine .inr ⟨inv, (foundRow_map_eq_ok hinv).1, ?_, rfl⟩
    exact (h₁.2 rfl).imp_left fun hadmin => ⟨caller, getUser_eq_ok hcaller, hadmin⟩

/-- An invitation that can be accepted is pending, and so far nothing has happened. -/
theorem ensures_openInvitation (token : String) :
    (openInvitation lib token).Ensures attend (fun r d' => ∀ id inv, r = .ok (id, inv) →
      d' = (d.next d.office).next d.office ∧
        d.office.view.invitationOf token = some (id, inv) ∧ inv.status = .pending) d := by
  refine ensures_query_unwrap rfl (fun _ _ _ h => nomatch h) fun row hrow => ?_
  have hfound := (foundRow_map_eq_ok hrow).1
  dsimp only
  split_ifs with hverify hpending
  · exact nofun
  · exact nofun
  · refine (ensures_local .now fun _ _ => rfl).bind fun time d₁ h₁ => ?_
    split_ifs with hexpired
    · exact (ensures_statement _).bind fun _ _ _ _ _ h => nomatch h
    · intro id inv h
      cases h
      exact ⟨h₁, hfound, not_not.mp hpending⟩

/-- The database after somebody has joined. -/
def joined (db : Database) (id key : String) (m : WorkspaceMember) : Database :=
  { db with
    members := db.members.insert key m
    invitations := withInvitationStatus db.invitations id .accepted }

theorem ensures_join (id : String) (inv : WorkspaceInvitation) (userId : String) :
    (join id inv userId).Ensures attend (fun r d' => r = .ok () →
      d.office.view.members.lookup (d.turns 0).fresh = none ∧
        d'.office = d.office.setView
          (joined d.office.view id (d.turns 0).fresh (membershipOf inv userId))) d := by
  refine (ensures_statement _).unwrap (fun _ _ _ h => nomatch h) fun key d₁ h₁ => ?_
  rcases h₁ with ⟨-, err, herr⟩ | ⟨key', db', happly, h₁, hkey⟩
  · cases herr
  · obtain ⟨hfree, -, rfl⟩ := created_eq_ok happly
    refine (ensures_statement _).mono fun r d' h hok => ?_
    subst hok
    rcases h with ⟨-, err, herr⟩ | ⟨value, db', happly, h, -⟩
    · cases herr
    · cases happly
      refine ⟨hfree, ?_⟩
      rw [h, h₁, Desk.next_office, Desk.next_office, Office.view_setView, Office.setView_setView]
      rfl

variable (lib) in
/-- `Accept` inside its transaction: if it gets to the end, somebody with the right address has
joined. -/
theorem ensures_acceptTx (token acceptorId : String) :
    (acceptTx lib token acceptorId).Ensures attend (fun r d' => r = .ok () →
      ∃ id inv user, d.office.view.invitationOf token = some (id, inv) ∧ inv.status = .pending ∧
        live User.deleted d.office.view.users acceptorId = some user ∧
        lib.equalFold user.email inv.email = true ∧
        d.office.view.members.lookup (d.turns 3).fresh = none ∧
        d'.office = d.office.setView
          (joined d.office.view id (d.turns 3).fresh (membershipOf inv acceptorId))) d := by
  refine (ensures_openInvitation token).unwrap (fun _ _ _ h => nomatch h) fun row d₁ h₁ => ?_
  obtain ⟨rfl, hfound, hpending⟩ := h₁ row.1 row.2 rfl
  refine ensures_query_unwrap rfl nofun fun acceptor hacceptor => ?_
  split_ifs with hemail
  · exact nofun
  · refine (ensures_join row.1 row.2 acceptorId).mono fun r d' h hok => ?_
    obtain ⟨hfree, hend⟩ := h hok
    exact ⟨row.1, row.2, acceptor, hfound, hpending, getUser_eq_ok hacceptor,
      by simpa using hemail, hfree, hend⟩

variable (lib) in
/-- `RegisterAndAccept` inside its transaction: if it gets to the end, a pending invitation has been
accepted. -/
theorem ensures_registerAndAcceptTx (token username password : String) :
    (registerAndAcceptTx lib token username password).Ensures attend (fun r d' =>
      ∀ jwt, r = .ok jwt → ∃ id inv, d.office.view.invitationOf token = some (id, inv) ∧
        inv.status = .pending ∧ d'.office.view.invitations =
          withInvitationStatus d.office.view.invitations id .accepted) d := by
  refine (ensures_openInvitation token).unwrap (fun _ _ _ _ h => nomatch h) fun row d₁ h₁ => ?_
  obtain ⟨rfl, hfound, hpending⟩ := h₁ row.1 row.2 rfl
  refine (ensures_checkAbsent rfl _).unwrap (fun _ _ _ _ h => nomatch h) fun _ d₂ h₂ => ?_
  refine (ensures_query rfl).bind fun taken d₃ h₃ => ?_
  cases taken with
  | ok user => exact nofun
  | error err =>
    refine (ensures_local (.encryptPassword password) fun _ _ => rfl).unwrap
      nofun fun _ d₄ h₄ => ?_
    refine (ensures_statement _).unwrap (fun _ _ _ _ h => nomatch h) fun userId d₅ h₅ => ?_
    have hstart : d₄.office = d.office := by rw [h₄, h₃.1]; exact h₂
    rcases h₅ with ⟨-, err, herr⟩ | ⟨key, db', happly, rfl, -⟩
    · cases herr
    · obtain ⟨-, -, rfl⟩ := created_eq_ok happly
      refine (ensures_join row.1 row.2 userId).unwrap nofun
        fun _ d₆ h₆ => ?_
      refine (ensures_local (.generateBusinessJWT userId) fun _ _ => rfl).mono
        fun r d' h jwt hjwt => ⟨row.1, row.2, hfound, hpending, ?_⟩
      rw [h, Desk.next_office, (h₆ rfl).2, Desk.next_office, Office.setView_setView,
        Office.view_setView, Office.view_setView, hstart]
      rfl

/-! ## The transactions -/

section Calls

variable {P : OfficeCall → Prop} (hdb : ∀ c : DbCall, c.writes ≠ some .workspaces → P (.db c))

theorem confined_checkAbsent {α : Type} (text : String) (found : Except GoError α) :
    Confined P (checkAbsent text found) := by
  cases found with
  | ok a => trivial
  | error err =>
    unfold checkAbsent
    dsimp only
    split_ifs <;> trivial

include hdb

theorem confined_db (c : DbCall) (hc : c.writes ≠ some .workspaces) : Confined P c.issue :=
  .db c (hdb c hc)

theorem confined_join (id : String) (inv : WorkspaceInvitation) (userId : String) :
    Confined P (join id inv userId) :=
  (confined_db hdb (.addMember _) nofun).unwrap fun _ =>
    confined_db hdb (.updateInvitation _ _) nofun

variable (hnow : P .now)

include hnow

theorem confined_openInvitation (token : String) : Confined P (openInvitation lib token) := by
  refine (confined_db hdb (.getByToken token) nofun).mapError.unwrap fun row => ?_
  dsimp only
  split_ifs
  · trivial
  · trivial
  · refine (Confined.call .now hnow).bind fun time => ?_
    split_ifs
    · exact (confined_db hdb (.updateInvitation _ _) nofun).bind fun _ => trivial
    · trivial

theorem confined_acceptTx (token acceptorId : String) :
    Confined P (acceptTx lib token acceptorId) := by
  refine (confined_openInvitation hdb hnow token).unwrap fun row => ?_
  refine (confined_db hdb (.getUser acceptorId) nofun).mapError.unwrap fun acceptor => ?_
  split_ifs
  · trivial
  · exact confined_join hdb _ _ _

theorem confined_registerAndAcceptTx (hpassword : ∀ password, P (.encryptPassword password))
    (hjwt : ∀ userId, P (.generateBusinessJWT userId)) (token username password : String) :
    Confined P (registerAndAcceptTx lib token username password) := by
  refine (confined_openInvitation hdb hnow token).unwrap fun row => ?_
  refine ((confined_db hdb (.getUserByEmail _) nofun).bind (confined_checkAbsent _)).unwrap
    fun _ => ?_
  refine (confined_db hdb (.getUserByUsername username) nofun).bind fun taken => ?_
  cases taken with
  | ok user => trivial
  | error err =>
    refine (Confined.call (.encryptPassword password) (hpassword _)).unwrap fun _ => ?_
    refine (confined_db hdb (.createUser _) nofun).unwrap fun userId => ?_
    exact (confined_join hdb _ _ userId).unwrap fun _ => .call _ (hjwt userId)

end Calls

variable (lib) in
/-- `Accept` changes nothing and fails, or somebody with the right address has joined. -/
theorem accept_cases (token acceptorId : String) (d : Desk) :
    let r := (accept lib token acceptorId).run attend d
    (r.2.office.db = d.office.db ∧ r.1 ≠ .ok ()) ∨
      ∃ id inv user, d.office.db.invitationOf token = some (id, inv) ∧ inv.status = .pending ∧
        live User.deleted d.office.db.users acceptorId = some user ∧
        lib.equalFold user.email inv.email = true ∧
        d.office.db.members.lookup (d.turns 4).fresh = none ∧
        r.2.office.db = joined d.office.db id (d.turns 4).fresh (membershipOf inv acceptorId) := by
  intro r
  have hbody := ensures_acceptTx lib (d := d.next d.office.begun) token acceptorId
  have hinside : StaysInside (acceptTx lib token acceptorId) :=
    confined_acceptTx (fun _ _ => trivial) trivial token acceptorId
  rcases db_run_transaction hinside d with
    ⟨hdb, err, herr⟩ | ⟨value, hvalue, hdb⟩
  · refine .inl ⟨hdb, fun hok => ?_⟩
    cases herr.symm.trans hok
  · obtain ⟨id, inv, user, hfound, hpending, huser, hemail, hfree, hend⟩ := hbody hvalue
    refine .inr ⟨id, inv, user, hfound, hpending, huser, hemail, hfree, hdb.trans ?_⟩
    rw [hend, Office.view_setView]
    rfl

variable (lib) in
/-- `RegisterAndAccept` leaves the invitations, or a pending one has been accepted. -/
theorem registerAndAccept_cases (token username password : String) (d : Desk) :
    let r := (registerAndAccept lib token username password).run attend d
    r.2.office.db.invitations = d.office.db.invitations ∨
      ∃ id inv, d.office.db.invitationOf token = some (id, inv) ∧ inv.status = .pending ∧
        r.2.office.db.invitations = withInvitationStatus d.office.db.invitations id .accepted := by
  intro r
  have hbody := ensures_registerAndAcceptTx lib (d := d.next d.office.begun)
    token username password
  have hinside : StaysInside (registerAndAcceptTx lib token username password) :=
    confined_registerAndAcceptTx (fun _ _ => trivial) trivial (fun _ => trivial) (fun _ => trivial)
      token username password
  rcases db_run_transaction hinside d with
    ⟨hdb, -⟩ | ⟨jwt, hjwt, hdb⟩
  · exact .inl (congrArg Database.invitations hdb)
  · obtain ⟨id, inv, hfound, hpending, hend⟩ := hbody jwt hjwt
    exact .inr ⟨id, inv, hfound, hpending, (congrArg Database.invitations hdb).trans hend⟩

/-! ## What is claimed of every step -/

/-- Who may make an operation create or change an invitation to what it is then. Whoever accepts
is the one who was invited. -/
def Authorised (lib : InvitationLibrary) (db : Database) (inv : WorkspaceInvitation) :
    Operation → Prop
  | .create wsId inviterId _ _ =>
      inv.workspaceId = wsId ∧ (PlatformAdmin db inviterId ∨ ActiveMember db wsId inviterId .admin)
  | .revoke callerId _ =>
      PlatformAdmin db callerId ∨ inv.inviterId = callerId ∨
        ActiveMember db inv.workspaceId callerId .admin
  | .accept token acceptorId =>
      inv.status = .accepted ∧ inv.token = token ∧
        ∃ user, live User.deleted db.users acceptorId = some user ∧
          lib.equalFold user.email inv.email = true
  | .registerAndAccept token _ _ => inv.status = .accepted ∧ inv.token = token
  | .remove _ _ => False
  | .suspend _ _ => False

/-- A step as it should be. -/
structure Orderly (lib : InvitationLibrary) (db : Database) (e : Event) : Prop where
  /-- Only a pending invitation gets another status. -/
  moves : ∀ id inv, db.invitations.lookup id = some inv →
    ∃ inv', (next lib db e).invitations.lookup id = some inv' ∧
      (inv'.status = inv.status ∨ inv.status = .pending)
  /-- Only those who may create or change invitations do. -/
  authorised : ∀ id inv', (next lib db e).invitations.lookup id = some inv' →
    db.invitations.lookup id ≠ some inv' → Authorised lib db inv' e.1
  /-- Whoever has accepted has the role. -/
  serves : ∀ token acceptorId, e.1 = .accept token acceptorId → (outcome lib db e).1 = .ok () →
    ∃ id inv, db.invitationOf token = some (id, inv) ∧
      Passes (next lib db e) inv.workspaceId acceptorId inv.role

/-! ## When a step is so -/

/-- The membership of an admin by whom a check was passed is active. -/
def Vetted (db : Database) (wsId userId : String) : Prop :=
  MemberRow db wsId userId .admin (fun _ => True) → ActiveMember db wsId userId .admin

/-- A membership that gives the role. -/
def Serves (role : WorkspaceRole) (m : WorkspaceMember) : Prop :=
  m.status.Admitted ∧ getRoleWeight role ≤ getRoleWeight m.role

/-- The conditions: admins who create or revoke are active; what is revoked is pending or revoked
already; and who accepts has no earlier membership that would be found instead of the new one,
unless it gives the role. The new membership gets the identifier of the fifth call of `Accept`. -/
def Careful (db : Database) : Event → Prop
  | (.create wsId inviterId _ _, _) => Vetted db wsId inviterId
  | (.revoke callerId id, _) => ∀ inv, db.invitations.lookup id = some inv →
      (inv.status = .pending ∨ inv.status = .revoked) ∧ Vetted db inv.workspaceId callerId
  | (.accept token acceptorId, turns) => ∀ id inv, db.invitationOf token = some (id, inv) →
      PlatformAdmin db acceptorId ∨ ∀ key m,
        db.membership inv.workspaceId acceptorId = some (key, m) →
          (turns 4).fresh < key ∨ Serves inv.role m
  | _ => True

variable {inv : WorkspaceInvitation}

section Steps

variable {db : Database}

theorem invitationOf_eq_some {token id : String} (h : db.invitationOf token = some (id, inv)) :
    db.invitations.lookup id = some inv ∧ inv.token = token := by
  obtain ⟨hlookup, htest, -⟩ := Rows.first_eq_some h
  exact ⟨hlookup, of_decide_eq_true (Bool.and_eq_true_iff.mp htest).2⟩

/-! ### One operation at a time -/

theorem orderly_of_same {e : Event} (h : (next lib db e).invitations = db.invitations)
    (haccept : ∀ token acceptorId, e.1 = .accept token acceptorId → (outcome lib db e).1 ≠ .ok ()) :
    Orderly lib db e where
  moves _ inv hinv := ⟨inv, h ▸ hinv, .inl rfl⟩
  authorised _ _ hinv' hne := absurd (h ▸ hinv') hne
  serves token acceptorId he hok := absurd hok (haccept token acceptorId he)

/-- A step that writes the status of one invitation. -/
theorem orderly_of_status {e : Event} {id : String} {status : InvitationStatus}
    (h : (next lib db e).invitations = withInvitationStatus db.invitations id status)
    (hinv : db.invitations.lookup id = some inv)
    (hstatus : inv.status = .pending ∨ inv.status = status)
    (hallowed : Authorised lib db { inv with status := status } e.1)
    (haccept : ∀ token acceptorId, e.1 = .accept token acceptorId →
      ∃ id inv, db.invitationOf token = some (id, inv) ∧
        Passes (next lib db e) inv.workspaceId acceptorId inv.role) : Orderly lib db e := by
  -- the invitation is the only one that changes
  have hcases : ∀ key, (next lib db e).invitations.lookup key = db.invitations.lookup key ∨
      key = id ∧ (next lib db e).invitations.lookup key = some { inv with status := status } := by
    intro key
    rw [h, withInvitationStatus, Rows.lookup_updateWhere]
    by_cases hkey : key = id
    · subst hkey
      by_cases hdeleted : inv.deleted <;> simp [hinv, hdeleted]
    · simp [hkey]
  refine ⟨fun key old hold => ?_, fun key new hnew hne => ?_, fun token acceptorId he _ =>
    haccept token acceptorId he⟩
  · rcases hcases key with hsame | ⟨rfl, hchanged⟩
    · exact ⟨old, hsame.trans hold, .inl rfl⟩
    · obtain rfl := some.inj (hold.symm.trans hinv)
      exact ⟨_, hchanged, hstatus.symm.imp_left Eq.symm⟩
  · rcases hcases key with hsame | ⟨-, hchanged⟩
    · exact absurd (hsame.symm.trans hnew) hne
    · rw [← some.inj (hchanged.symm.trans hnew)]
      exact hallowed

variable {turns : ℕ → Turn}

theorem orderly_create {wsId inviterId email : String} {role : WorkspaceRole}
    (hvetted : Vetted db wsId inviterId) :
    Orderly lib db (.create wsId inviterId email role, turns) := by
  have hspec := ensures_create (d := { office := { db := db }, turns := turns })
    wsId inviterId email role
  rcases hspec with hsame | ⟨id, inv, hfree, hws, hadmin, hend⟩
  · exact orderly_of_same (congrArg (fun o => o.db.invitations) hsame) nofun
  · have hnext : (next lib db (.create wsId inviterId email role, turns)).invitations =
        db.invitations.insert id inv := congrArg (fun o => o.db.invitations) hend
    refine ⟨fun key old hold => ?_, fun key new hnew hne => ?_, nofun⟩
    · rw [hnext]
      have hkey : key ≠ id := by
        rintro rfl
        exact some_ne_none _ (hold.symm.trans hfree)
      exact ⟨old, (AList.lookup_insert_ne hkey).trans hold, .inl rfl⟩
    · rw [hnext] at hnew
      by_cases hkey : key = id
      · subst hkey
        rw [AList.lookup_insert, some_inj] at hnew
        subst hnew
        exact ⟨hws, hadmin.imp_right hvetted⟩
      · rw [AList.lookup_insert_ne hkey] at hnew
        exact absurd hnew hne

theorem orderly_revoke {callerId id : String} (hcareful : Careful db (.revoke callerId id, turns)) :
    Orderly lib db (.revoke callerId id, turns) := by
  have hspec := ensures_revoke (d := { office := { db := db }, turns := turns }) callerId id
  rcases hspec with hsame | ⟨inv, hlive, hadmin, hend⟩
  · exact orderly_of_same (congrArg (fun o => o.db.invitations) hsame) nofun
  · have hinv : db.invitations.lookup id = some inv := (filter_eq_some_iff.mp hlive).1
    obtain ⟨hstatus, hvetted⟩ := hcareful inv hinv
    exact orderly_of_status (congrArg (fun o => o.db.invitations) hend) hinv hstatus
      (hadmin.imp_right (Or.imp_right hvetted)) nofun

theorem orderly_registerAndAccept {token username password : String} :
    Orderly lib db (.registerAndAccept token username password, turns) := by
  have hspec := registerAndAccept_cases lib token username password
    { office := { db := db }, turns := turns }
  rcases hspec with hsame | ⟨id, inv, hfound, hpending, hend⟩
  · exact orderly_of_same hsame nofun
  · obtain ⟨hinv, htoken⟩ := invitationOf_eq_some hfound
    exact orderly_of_status hend hinv (.inl hpending) ⟨rfl, htoken⟩ nofun

/-- The membership found after a new one has been added. -/
theorem serves_after_join {id key : String} {acceptorId : String}
    (hfree : db.members.lookup key = none)
    (h : ∀ key' m, db.membership inv.workspaceId acceptorId = some (key', m) →
      key < key' ∨ Serves inv.role m) :
    ∃ key' m, (joined db id key (membershipOf inv acceptorId)).membership inv.workspaceId
      acceptorId = some (key', m) ∧ Serves inv.role m := by
  have htest : (!(membershipOf inv acceptorId).deleted &&
      scope inv.workspaceId (membershipOf inv acceptorId).workspaceId &&
        scope acceptorId (membershipOf inv acceptorId).userId) = true := by
    simp [membershipOf, scope]
  have hnew : Serves inv.role (membershipOf inv acceptorId) := by
    simp [Serves, membershipOf, MemberStatus.Admitted]
  by_cases hearlier : ∃ key' m,
      db.membership inv.workspaceId acceptorId = some (key', m) ∧ key' ≤ key
  · obtain ⟨key', m, hfirst, hle⟩ := hearlier
    refine ⟨key', m, Rows.first_insert_of_le hfree hfirst hle, ?_⟩
    exact (h key' m hfirst).resolve_left (not_lt.mpr hle)
  · refine ⟨key, _, Rows.first_insert_of_lt htest fun key' m hfirst => ?_, hnew⟩
    by_contra hge
    exact hearlier ⟨key', m, hfirst, not_lt.mp hge⟩

theorem orderly_accept {token acceptorId : String}
    (hcareful : Careful db (.accept token acceptorId, turns)) :
    Orderly lib db (.accept token acceptorId, turns) := by
  have hspec := accept_cases lib token acceptorId
    { office := { db := db }, turns := turns }
  rcases hspec with ⟨hsame, hfailed⟩ |
    ⟨id, inv, user, hfound, hpending, huser, hemail, hfree, hend⟩
  · refine orderly_of_same (congrArg Database.invitations hsame) fun _ _ _ hok => hfailed ?_
    change Except.map _ _ = _ at hok
    cases hresult : ((accept lib token acceptorId).run attend
        { office := { db := db }, turns := turns }).1 with
    | error err =>
      rw [hresult] at hok
      cases hok
    | ok value => rfl
  · have hnext : next lib db (.accept token acceptorId, turns) =
        joined db id (turns 4).fresh (membershipOf inv acceptorId) := hend
    obtain ⟨hinv, htoken⟩ := invitationOf_eq_some hfound
    refine orderly_of_status (congrArg Database.invitations hnext) hinv (.inl hpending)
      ⟨rfl, htoken, user, huser, hemail⟩ fun token' user' he => ?_
    cases he
    refine ⟨id, inv, hfound, ?_⟩
    rw [hnext]
    refine passes_of_memberRow huser ?_
    rcases hcareful id inv hfound with ⟨user', huser', hadmin⟩ | hearlier
    · rw [some.inj (huser.symm.trans huser')]
      exact .inl hadmin
    · exact .inr (serves_after_join hfree hearlier)

/-- **One step.** -/
theorem orderly_of_careful {e : Event} (h : Careful db e) : Orderly lib db e := by
  obtain ⟨operation, turns⟩ := e
  cases operation with
  | create wsId inviterId email role => exact orderly_create h
  | accept token acceptorId => exact orderly_accept h
  | registerAndAccept token username password => exact orderly_registerAndAccept
  | revoke callerId id => exact orderly_revoke h
  | suspend wsId userId => exact orderly_of_same rfl nofun
  | remove wsId userId =>
    refine orderly_of_same ?_ nofun
    have hframe := sameBut_execOffice (.softRemove wsId userId) (turns 0) { db := db }
    exact hframe.invitations (by simp [DbCall.writes])

end Steps

/-- A status other than pending stays for the rest of a run. -/
theorem status_settled {db : Database} {events : List Event}
    (h : AlongSteps (next lib) (Orderly lib) db events) {id : String}
    (hinv : db.invitations.lookup id = some inv) (hsettled : inv.status ≠ .pending) :
    ∃ inv', (events.foldl (next lib) db).invitations.lookup id = some inv' ∧
      inv'.status = inv.status := by
  refine (h.invariant (I := fun db => ∃ inv', db.invitations.lookup id = some inv' ∧
    inv'.status = inv.status) (Q := fun _ _ => True) ?_ ⟨inv, hinv, rfl⟩).2
  rintro db' e ⟨inv', hinv', hstatus⟩ hstep
  obtain ⟨inv'', hinv'', hmoves⟩ := hstep.moves id inv' hinv'
  refine ⟨trivial, inv'', hinv'', ?_⟩
  rcases hmoves with hsame | hpending
  · exact hsame.trans hstatus
  · exact absurd (hstatus.symm.trans hpending) hsettled

/-- **The life of an invitation.** Over every sequence of operations whose steps are careful, from
any database and with any calls failing: every step is as it should be, and an invitation that is
not pending any more at some point keeps its status to the end. -/
theorem orderly_along (lib : InvitationLibrary) (db : Database) (events : List Event)
    (h : AlongSteps (next lib) Careful db events) :
    AlongSteps (next lib) (Orderly lib) db events ∧
      ∀ first second, events = first ++ second → ∀ id inv,
        (first.foldl (next lib) db).invitations.lookup id = some inv → inv.status ≠ .pending →
          ∃ inv', (events.foldl (next lib) db).invitations.lookup id = some inv' ∧
            inv'.status = inv.status := by
  have hall : AlongSteps (next lib) (Orderly lib) db events :=
    h.mono fun _ _ => orderly_of_careful
  refine ⟨hall, ?_⟩
  rintro first second rfl id inv hinv hsettled
  rw [List.foldl_append]
  exact status_settled (alongSteps_append.mp hall).2 hinv hsettled

/-! ## Runs -/

/-- Every signature is right, and addresses are compared as they are. -/
def plainLibrary : InvitationLibrary where
  verifyInviteToken _ := true
  equalFold a b := a == b

/-- No call fails, and every identifier and token is the same. -/
def smooth : ℕ → Turn := fun _ => { fresh := "t" }

/-- A platform admin and somebody with an address. -/
def twoUsers : Database where
  users := Go.GoMap.ofPairs [("root", { systemRole := .platformAdmin }), ("u", { email := "e" })]

theorem orderly_along_invite :
    let events : List Event :=
      [(.create "1" "root" "e" .member, smooth), (.accept "t" "u", smooth)]
    AlongSteps (next plainLibrary) Careful twoUsers events ∧
      AlongSteps (next plainLibrary) (Orderly plainLibrary) twoUsers events := by
  intro events
  have hcareful : AlongSteps (next plainLibrary) Careful twoUsers events := by
    refine ⟨?_, ?_, trivial⟩
    · rintro ⟨key, m, hmember, -⟩
      cases hmember
    · refine fun id inv _ => .inr fun key m hmember => ?_
      cases hmember
  exact ⟨hcareful, (orderly_along plainLibrary twoUsers events hcareful).1⟩

/-- An admin and a viewer of one workspace. -/
def adminAndViewer : Database where
  users := Go.GoMap.ofPairs [("a", {}), ("u", { email := "e" })]
  members := Go.GoMap.ofPairs
    [("m0", { workspaceId := "1", userId := "a", role := .admin }),
      ("m1", { workspaceId := "1", userId := "u", role := .viewer })]

/-- The invitation that the admin sends to the viewer. -/
def promotion (status : InvitationStatus) : WorkspaceInvitation where
  workspaceId := "1"
  inviterId := "a"
  email := "e"
  role := .member
  token := "t"
  status := status
  expiresAt := validity

/-- What happens to the promotion. -/
def promotions (operations : List Operation) : Database :=
  operations.foldl (fun db operation => next plainLibrary db (operation, smooth)) adminAndViewer

/-- An accepted invitation is revoked; an admin who was removed invites somebody; and a member who
was removed accepts an invitation without getting access. No call fails. -/
theorem disorderly_runs :
    ¬AlongSteps (next plainLibrary) (Orderly plainLibrary) adminAndViewer
        [(.create "1" "a" "e" .member, smooth), (.accept "t" "u", smooth),
          (.revoke "a" "t", smooth)] ∧
      ¬AlongSteps (next plainLibrary) (Orderly plainLibrary) adminAndViewer
        [(.remove "1" "a", smooth), (.create "1" "a" "e" .member, smooth)] ∧
      ¬AlongSteps (next plainLibrary) (Orderly plainLibrary) adminAndViewer
        [(.create "1" "a" "e" .member, smooth), (.remove "1" "u", smooth),
          (.accept "t" "u", smooth)] := by
  refine ⟨?_, ?_, ?_⟩
  · rintro ⟨-, -, hstep, -⟩
    have hbefore : (promotions [.create "1" "a" "e" .member, .accept "t" "u"]).invitations.lookup
        "t" = some (promotion .accepted) := by decide +kernel
    have hafter : (promotions [.create "1" "a" "e" .member, .accept "t" "u",
        .revoke "a" "t"]).invitations.lookup "t" = some (promotion .revoked) := by decide +kernel
    obtain ⟨inv, hinv, hmoves⟩ := hstep.moves "t" _ hbefore
    obtain rfl : promotion .revoked = inv := some.inj (hafter.symm.trans hinv)
    rcases hmoves with hsame | hpending
    · cases hsame
    · cases hpending
  · rintro ⟨-, hstep, -⟩
    have hbefore : (promotions [.remove "1" "a"]).invitations.lookup "t" ≠
        some (promotion .pending) := by decide +kernel
    have hafter : (promotions [.remove "1" "a", .create "1" "a" "e" .member]).invitations.lookup
        "t" = some (promotion .pending) := by decide +kernel
    have huser : live User.deleted (promotions [.remove "1" "a"]).users "a" = some {} := by
      decide +kernel
    have hmember : (promotions [.remove "1" "a"]).membership "1" "a" = some ("m0",
        { workspaceId := "1", userId := "a", role := .admin, status := .removed }) := by
      decide +kernel
    rcases (hstep.authorised "t" _ hafter hbefore).2 with
      ⟨user, huser', hadmin⟩ | ⟨key, m, hmember', hactive, -⟩
    · obtain rfl : {} = user := some.inj (huser.symm.trans huser')
      cases hadmin
    · cases hmember.symm.trans hmember'
      cases hactive
  · rintro ⟨-, -, hstep, -⟩
    have hresult : (outcome plainLibrary (promotions [.create "1" "a" "e" .member,
        .remove "1" "u"]) (.accept "t" "u", smooth)).1 = .ok () := by decide +kernel
    have hfound : (promotions [.create "1" "a" "e" .member, .remove "1" "u"]).invitationOf "t" =
        some ("t", promotion .pending) := by decide +kernel
    have hrefused : ((requireWorkspaceRole "1" "u" .member).run attend
        { office := { db := promotions [.create "1" "a" "e" .member, .remove "1" "u",
            .accept "t" "u"] } }).1 =
          .error (newError "your access to this workspace has been suspended or revoked") := by
      decide +kernel
    obtain ⟨id, inv, hfound', member, hpasses⟩ := hstep.serves "t" "u" rfl hresult
    cases hfound.symm.trans hfound'
    cases hrefused.symm.trans hpasses

end Invitations

end Wireflow.Server
