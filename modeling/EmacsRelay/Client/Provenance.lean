import EmacsRelay.Client.Run

set_option autoImplicit false

/- Where the pairs of bytes and revision that a buffer holds come from. One invariant over a
predicate on pairs: whatever replies may bring in is what BASE, conflict states, operations,
merge buffers and the cache hold. -/
namespace EmacsRelay

open Routine Editor RelaySave

/-- A predicate on pairs that may use what the server has reported so far, the cache keys it
is wanted for, and the identities the buffer may visit. -/
structure Policy where
  good : List Report → Bytes → Token → Prop
  mono : ∀ {old new : List Report} {bytes : Bytes} {revision : Token},
    good old bytes revision → good (old ++ new) bytes revision
  interest : CacheKey → Prop
  home : Option Identity → Prop

/-- The part of the machine that snapshots live in. -/
structure Core where
  fileName : Option String
  base : Option Base
  state : Option ConflictState
  merges : List MergeBuffer
  active : Option Operation
  queued : Option Operation
  status : Option Status
  cache : CacheKey → Option (Bytes × Token)
  rpcs : List Rpc
  reports : List Report

def Machine.core (m : Machine) : Core :=
  { fileName := m.fileName, base := m.base, state := m.state, merges := m.merges
    active := m.active, queued := m.queued, status := m.status, cache := m.cache
    rpcs := m.rpcs, reports := m.history.reports }

/-- A Save As whose target is none of the keys of interest. -/
def Policy.Aside (p : Policy) (op : Operation) : Prop :=
  op.choice = some .saveAs ∧ ∀ id, op.target = some id → ¬ p.interest (id.authority, id.path)

section Pieces

variable (p : Policy) (reports : List Report)

def Policy.BaseOk (b : Base) : Prop :=
  ∃ bytes, b.bytes = some bytes ∧ p.good reports bytes b.revision

structure Policy.SnapOk (st : ConflictState) : Prop where
  base : ∀ b, st.base = some b → p.BaseOk reports b
  remote : ∀ r, st.remote = some r → p.good reports r.bytes r.revision ∧
    (r.deleted = true → r.bytes = [] ∧ r.revision = .missing)
  retry : st.status = some .retry →
    ∃ b r, st.base = some b ∧ st.remote = some r ∧ b.bytes = some r.bytes

/-- A precondition an operation may carry: the missing state, a revision of BASE's bytes, or
the revision of the REMOTE it resolves. -/
def Policy.ExpectedOk (op : Operation) (token : Token) : Prop :=
  token = .missing ∨
  (∃ b bytes, op.base = some b ∧ b.bytes = some bytes ∧ p.good reports bytes token) ∨
  ∃ st r, op.snapshot = some st ∧ st.remote = some r ∧ r.revision = token

structure Policy.OpOk (op : Operation) : Prop where
  home : p.home op.identity
  base : ∀ b, op.base = some b → p.BaseOk reports b
  snapshot : ∀ st, op.snapshot = some st → p.SnapOk reports st
  expected : ∀ token, op.expected = some token → p.ExpectedOk reports op token
  localBytes : op.mergeBuffer = none → op.choice ≠ some .restoreBase →
    ∀ st, op.snapshot = some st → op.bytes = st.localBytes
  merge : op.mergeBuffer.isSome = true → ∃ st r, op.snapshot = some st ∧ st.remote = some r
  target : op.targetIdentity.isSome = true → op.choice = some .saveAs
  saveAs : op.targetIdentity = op.saveAs.map (saveAsTarget op.identity)
  merged : op.mergeBuffer.isSome = true →
    op.bytes.isSome = true ∧ op.base = op.snapshot.bind (·.base)

end Pieces

/-- A call asks the server what its callback expects to hear about. -/
def Rpc.Formed (rpc : Rpc) : Prop :=
  match rpc.callback with
  | .writeDone op =>
      op.mergeBuffer = none ∧ rpc.request = prepareWrite op.identity op.bytes op.expected op.saveAs
  | .reconcileRead op _ => op.mergeBuffer = none ∧ rpc.request = prepareRead op.target
  | .conflictRead op _ =>
      op.mergeBuffer = none ∧ op.bytes.isSome = true ∧ rpc.request = prepareRead op.target
  | .inspected op _ =>
      op.mergeBuffer = none ∧ op.snapshot = none ∧ op.choice = none ∧
        rpc.request = prepareRead op.identity
  | .mergeWriteDone op =>
      op.mergeBuffer.isSome = true ∧
        ∃ token, rpc.request = prepareWrite op.identity op.bytes (some token) none ∧
          (op.snapshot.bind (·.remote)).map (·.revision) = some token
  | .mergeVerified op => op.mergeBuffer.isSome = true ∧ rpc.request = prepareRead op.identity
  | .mergeLossRead op => op.mergeBuffer.isSome = true ∧ rpc.request = prepareRead op.identity
  | .mergeConflictRead op _ =>
      op.mergeBuffer.isSome = true ∧ rpc.request = prepareRead op.identity

structure Policy.RpcOk (p : Policy) (reports : List Report) (rpc : Rpc) : Prop where
  operation : p.OpOk reports rpc.callback.operation
  numbered : rpc.callback.operation.generation.isSome = true
  formed : rpc.Formed
  inspected : ∀ op st, rpc.callback = .inspected op st →
    (∀ s, st = some s → p.SnapOk reports s) ∧ op.bytes = st.bind (·.localBytes) ∧
      op.base = st.bind (·.base)
  deleted : ∀ op, rpc.callback = .conflictRead op (.kind .deleted) →
    p.good reports [] .missing ∨ p.Aside op

/-- An operation that resolves no conflict. -/
structure Operation.Ordinary (op : Operation) : Prop where
  plain : op.mergeBuffer = none
  choice : op.choice = none
  snapshot : op.snapshot = none

theorem Operation.Ordinary.rebase {op : Operation} (ordinary : op.Ordinary) (base : Base) :
    (op.rebase base).Ordinary :=
  ⟨ordinary.plain, ordinary.choice, ordinary.snapshot⟩

/-- Everything the buffer holds is good. -/
structure Stored (p : Policy) (c : Core) : Prop where
  home : p.home (RelayConflict.fileIdentity c.fileName)
  base : ∀ b, c.base = some b → p.BaseOk c.reports b
  state : ∀ st, c.state = some st → p.SnapOk c.reports st
  merges : ∀ buffer ∈ c.merges, ∀ st, buffer.snapshot = some st →
    p.SnapOk c.reports st ∧ st.remote.isSome = true
  active : ∀ op, c.active = some op → op.generation.isSome = true
  queued : ∀ op, c.queued = some op → p.OpOk c.reports op ∧ op.Ordinary
  cache : ∀ key, p.interest key → ∀ bytes revision, c.cache key = some (bytes, revision) →
    p.good c.reports bytes revision
  rpcs : ∀ rpc ∈ c.rpcs, p.RpcOk c.reports rpc

/-- The status agrees with the operations and the state: a save in flight shows, and a conflict
on display always has a REMOTE, also while a Save As is in flight. -/
structure Settled (active : Option Operation) (status : Option Status)
    (state : Option ConflictState) : Prop where
  saving : active.isSome = true → status = some .saving
  conflicted : status = some .conflict ∨
      (∃ op, active = some op ∧ op.choice = some .saveAs) →
    ∃ st, state = some st ∧ st.remote.isSome = true

structure Held (p : Policy) (m : Machine) : Prop where
  stored : Stored p m.core
  settled : Settled m.active m.status m.state

section Mono

variable {p : Policy} {old new : List Report}

theorem Policy.BaseOk.mono {b : Base} (ok : p.BaseOk old b) : p.BaseOk (old ++ new) b := by
  obtain ⟨bytes, same, good⟩ := ok
  exact ⟨bytes, same, p.mono good⟩

theorem Policy.SnapOk.mono {st : ConflictState} (ok : p.SnapOk old st) :
    p.SnapOk (old ++ new) st where
  base b same := (ok.base b same).mono
  remote r same := ⟨p.mono (ok.remote r same).1, (ok.remote r same).2⟩
  retry := ok.retry

theorem Policy.ExpectedOk.mono {op : Operation} {token : Token} (ok : p.ExpectedOk old op token) :
    p.ExpectedOk (old ++ new) op token := by
  rcases ok with missing | ⟨b, bytes, base, same, good⟩ | resolved
  · exact .inl missing
  · exact .inr (.inl ⟨b, bytes, base, same, p.mono good⟩)
  · exact .inr (.inr resolved)

theorem Policy.OpOk.mono {op : Operation} (ok : p.OpOk old op) : p.OpOk (old ++ new) op :=
  { ok with
    base := fun b same => (ok.base b same).mono
    snapshot := fun st same => (ok.snapshot st same).mono
    expected := fun token same => (ok.expected token same).mono }

theorem Policy.RpcOk.mono {rpc : Rpc} (ok : p.RpcOk old rpc) : p.RpcOk (old ++ new) rpc where
  operation := ok.operation.mono
  numbered := ok.numbered
  formed := ok.formed
  inspected op st same :=
    ⟨fun s here => ((ok.inspected op st same).1 s here).mono, (ok.inspected op st same).2⟩
  deleted op same := (ok.deleted op same).imp p.mono id

end Mono

section Core

variable (m : Machine)

@[simp] theorem core_edit (b : Buffer) : (m.edit b).core = m.core := rfl

@[simp] theorem core_hooked (edited : Option Buffer) : (m.hooked edited).core = m.core := by
  cases edited <;> rfl

@[simp] theorem core_markModified : m.markModified.core = m.core := rfl

@[simp] theorem core_markClean (owner : Option Identity) : (m.markClean owner).core = m.core := rfl

@[simp] theorem core_erase (installer : Installer) (recovery : Option Nat) (bytes : Option Bytes) :
    (m.erase installer recovery bytes).core = m.core := rfl

@[simp] theorem core_addRecovery (text : Text) : (m.addRecovery text).core = m.core := rfl

end Core

section Updates

variable {p : Policy} {m : Machine}

theorem Stored.note (stored : Stored p m.core) (reports : List Report) :
    Stored p (m.note reports).core where
  home := stored.home
  base b same := (stored.base b same).mono
  state st same := (stored.state st same).mono
  merges buffer member st same :=
    ⟨(stored.merges buffer member st same).1.mono, (stored.merges buffer member st same).2⟩
  active := stored.active
  queued op same := ⟨(stored.queued op same).1.mono, (stored.queued op same).2⟩
  cache key wanted bytes revision same := p.mono (stored.cache key wanted bytes revision same)
  rpcs rpc member := (stored.rpcs rpc member).mono

theorem Stored.recordBase (stored : Stored p m.core) {bytes : Bytes} {revision : Token}
    (good : p.good m.history.reports bytes revision) (coding : Coding) :
    Stored p (m.recordBase (some bytes) revision coding).core :=
  { stored with
    base := by
      rintro b ⟨⟩
      exact ⟨bytes, rfl, good⟩ }

theorem Stored.setState (stored : Stored p m.core) {state : Option ConflictState}
    (ok : ∀ st, state = some st → p.SnapOk m.history.reports st) :
    Stored p (m.setState state).core :=
  { stored with state := ok }

theorem Stored.setStatus (stored : Stored p m.core) (status : Status)
    (result : Option SaveResult) : Stored p (m.setStatus status result).core :=
  { stored with }

theorem Stored.clearOperations (stored : Stored p m.core) : Stored p m.clearOperations.core :=
  { stored with
    active := fun _ none => nomatch none
    queued := fun _ none => nomatch none }

theorem Stored.setQueued (stored : Stored p m.core) {queued : Option Operation}
    (ok : ∀ op, queued = some op → p.OpOk m.history.reports op ∧ op.Ordinary) :
    Stored p (m.setQueued queued).core :=
  { stored with queued := ok }

theorem Stored.activate (stored : Stored p m.core) {op : Operation}
    (numbered : op.generation.isSome = true) : Stored p (m.activate op).core :=
  { stored with
    active := by
      rintro _ ⟨⟩
      exact numbered }

theorem Stored.activateInspection (stored : Stored p m.core) {op : Operation}
    (numbered : op.generation.isSome = true) : Stored p (m.activateInspection op).core :=
  { stored with
    active := by
      rintro _ ⟨⟩
      exact numbered }

theorem Stored.issue (stored : Stored p m.core) {rpc : Rpc}
    (ok : p.RpcOk m.history.reports rpc) : Stored p (m.issue rpc).core :=
  { stored with
    rpcs := by
      intro other member
      rcases List.mem_append.mp member with old | fresh
      · exact stored.rpcs other old
      · rw [List.mem_singleton.mp fresh]
        exact ok }

theorem Stored.issueWrite (stored : Stored p m.core) {rpc : Rpc}
    (ok : p.RpcOk m.history.reports rpc) : Stored p (m.issueWrite rpc).core :=
  { stored.issue ok with }

/-- A pair put in the cache is good, or is for a key nobody asks about. -/
theorem Stored.cachePut (stored : Stored p m.core) (identity : Option Identity) (bytes : Bytes)
    (revision : Token)
    (ok : p.good m.history.reports bytes revision ∨
      ∀ id, identity = some id → ¬ p.interest (id.authority, id.path)) :
    Stored p (m.cachePut identity (some bytes) revision).core :=
  { stored with
    cache := by
      intro key wanted bytes' revision' found
      simp only [Machine.core, Machine.cachePut] at found
      split at found
      · rename_i same
        cases found
        refine ok.resolve_right fun elsewhere => ?_
        cases identity with
        | none => cases same
        | some id =>
            cases same
            exact elsewhere id rfl wanted
      · exact stored.cache key wanted bytes' revision' found }

theorem Stored.setMerges (stored : Stored p m.core) {merges : List MergeBuffer}
    (ok : ∀ buffer ∈ merges, ∀ st, buffer.snapshot = some st →
      p.SnapOk m.history.reports st ∧ st.remote.isSome = true) :
    Stored p (m.setMerges merges).core :=
  { stored with merges := ok }

end Updates

end EmacsRelay
