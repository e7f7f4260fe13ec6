import EmacsRelay.Client.HeldRun

set_option autoImplicit false

/- Whether the snapshots a buffer holds were reported for the file it visits. -/
namespace EmacsRelay

open RelaySave

/-- The server reported the pair for this file. -/
def Identity.Reported (id : Identity) (reports : List Report) (bytes : Bytes) (revision : Token) :
    Prop :=
  ⟨id.authority, id.path, bytes, revision⟩ ∈ reports

def visitedOnly (id : Identity) : Policy where
  good := id.Reported
  mono := List.mem_append_left _
  interest key := key = (id.authority, id.path)
  home identity := identity = some id

/-- A Save As to another file. -/
def Operation.Elsewhere (op : Operation) (id : Identity) : Prop :=
  op.choice = some .saveAs ∧
    ∀ target, op.target = some target → (target.authority, target.path) ≠ (id.authority, id.path)

/-- A follow-up read whose bytes say nothing about the visited file: from a Save As target it
returns what was saved there, and for a restored BASE it is not mistaken for LOCAL. -/
def Operation.Separate (op : Operation) (id : Identity) (bytes : Bytes) : Prop :=
  (op.Elsewhere id → op.bytes = some bytes) ∧
    (op.choice = some .restoreBase → op.snapshot.bind (·.localBytes) = some bytes →
      op.bytes = some bytes)

/-- Where snapshots of the visited file stay its own: it is not renamed, and follow-up reads are
separate. -/
def Separating (id : Identity) (m : Machine) : Event → Prop
  | .rename fileName => RelayConflict.fileIdentity fileName = some id
  | .reply index reply _ => ∀ rpc, m.rpcs[index]? = some rpc →
      match rpc.callback, reply with
      | .reconcileRead op _, .inr (.ok bytes _) => op.Elsewhere id → op.bytes = some bytes
      | .conflictRead op _, .inr (.ok bytes _) => op.Separate id bytes
      | .conflictRead op (.kind .deleted), .inr (.failed _) => op.Separate id []
      | _, _ => True
  | _ => True

section Target

variable {id : Identity} {reports : List Report} {op : Operation}

/-- A write goes to the operation's target. -/
theorem prepareWrite_target (direct : RelayConflict.Direct id)
    (ok : (visitedOnly id).OpOk reports op) {request : Request}
    (prepared : prepareWrite op.identity op.bytes op.expected op.saveAs = some request) :
    ∃ target bytes, op.target = some target ∧ op.bytes = some bytes ∧
      request = .write target.authority target.path bytes op.expected := by
  have home : op.identity = some id := ok.home
  have saveAs := ok.saveAs
  obtain ⟨origin, sent, bytes, here, captured, directed, write⟩ := prepareWrite_some prepared
  have same : origin = id := Option.some.inj (here.symm.trans home)
  rw [same] at directed
  rw [home] at saveAs
  cases named : op.saveAs with
  | none =>
      rw [named] at saveAs directed
      refine ⟨id, bytes, by simp [Operation.target, saveAs, home], captured, ?_⟩
      obtain ⟨authority, path⟩ := Prod.mk.inj (RelayConflict.rpcTarget_direct direct directed)
      rw [write, authority, path]
  | some name =>
      rw [named] at saveAs directed
      refine ⟨saveAsTarget (some id) name, bytes, by simp [Operation.target, saveAs], captured, ?_⟩
      obtain ⟨unparsed, there⟩ | ⟨localName, parsed, there⟩ := RelayConflict.rpcTarget_cases directed
      · obtain ⟨authority, path⟩ := Prod.mk.inj there
        rw [Option.getD_some] at unparsed path
        rw [write, authority, path]
        simp [saveAsTarget, unparsed]
      · obtain ⟨authority, path⟩ := Prod.mk.inj there
        rw [Option.getD_some] at parsed
        rw [write, authority, path]
        simp [saveAsTarget, parsed]

/-- A target is the visited file, or the operation is a Save As elsewhere. -/
theorem target_cases (ok : (visitedOnly id).OpOk reports op) {target : Identity}
    (there : op.target = some target) :
    (target.authority = id.authority ∧ target.path = id.path) ∨ op.Elsewhere id := by
  have home : op.identity = some id := ok.home
  by_cases same : target.authority = id.authority ∧ target.path = id.path
  · exact .inl same
  · refine .inr ⟨?_, ?_⟩
    · refine ok.target ?_
      cases given : op.targetIdentity with
      | some _ => rfl
      | none =>
          refine absurd ?_ same
          simp only [Operation.target, given, home] at there
          cases there
          exact ⟨rfl, rfl⟩
    · rintro other again equal
      have this : other = target := Option.some.inj (again.symm.trans there)
      rw [this, Prod.mk.injEq] at equal
      exact same equal

/-- What a read of the operation's target reports is the visited file's, or is put aside. -/
theorem read_target_reported (direct : RelayConflict.Direct id)
    (ok : (visitedOnly id).OpOk reports op) {rpc : Rpc}
    (request : rpc.request = prepareRead op.target) {bytes : Bytes} {revision : Token}
    (accepted : rpc.accepts (.inr (.ok bytes revision)) = true) (old : List Report) :
    id.Reported (old ++ rpc.reports (.inr (.ok bytes revision))) bytes revision ∨
      op.Elsewhere id := by
  have sent : rpc.request.isSome = true := by simpa [Rpc.accepts] using accepted
  obtain ⟨asked, sent⟩ := Option.isSome_iff_exists.mp sent
  obtain ⟨origin, target, there, directed, read⟩ := prepareRead_some (request.symm.trans sent)
  refine (target_cases ok there).imp_left fun same => List.mem_append_right _ ?_
  have direct : RelayConflict.Direct origin := by
    unfold RelayConflict.Direct
    rw [same.1, same.2]
    exact direct
  obtain ⟨authority, path⟩ := Prod.mk.inj (RelayConflict.rpcTarget_direct direct directed)
  rw [authority, path, same.1, same.2] at read
  simp [Rpc.reports, sent, read]

theorem read_identity_reported (direct : RelayConflict.Direct id)
    (ok : (visitedOnly id).OpOk reports op) {rpc : Rpc}
    (request : rpc.request = prepareRead op.identity) {bytes : Bytes} {revision : Token}
    (accepted : rpc.accepts (.inr (.ok bytes revision)) = true) (old : List Report) :
    id.Reported (old ++ rpc.reports (.inr (.ok bytes revision))) bytes revision := by
  have home : op.identity = some id := ok.home
  have sent : rpc.request.isSome = true := by simpa [Rpc.accepts] using accepted
  obtain ⟨asked, sent⟩ := Option.isSome_iff_exists.mp sent
  obtain ⟨origin, target, there, directed, read⟩ := prepareRead_some (request.symm.trans sent)
  have same : origin = id := Option.some.inj (there.symm.trans home)
  rw [same] at directed
  obtain ⟨authority, path⟩ := Prod.mk.inj (RelayConflict.rpcTarget_direct direct directed)
  rw [authority, path] at read
  refine List.mem_append_right _ ?_
  simp [Rpc.reports, sent, read]

end Target

section Sound

variable {codec : Codec} {id : Identity} {m : Machine}

theorem writeDone_sound (direct : RelayConflict.Direct id) {reports : List Report}
    {op : Operation} {rpc : Rpc} (ok : (visitedOnly id).OpOk reports op)
    (request : rpc.request = prepareWrite op.identity op.bytes op.expected op.saveAs)
    {reply : WriteReply} (accepted : rpc.accepts (.inl reply) = true) (old : List Report) :
    (visitedOnly id).SoundReply (old ++ rpc.reports (.inl reply)) (.writeDone op)
      (.inl reply) := by
  have sent : (∀ error, reply ≠ .transport error) → ∃ target bytes, op.target = some target ∧
      op.bytes = some bytes ∧
      rpc.request = some (.write target.authority target.path bytes op.expected) := by
    intro answered
    have prepared : rpc.request.isSome = true := by
      cases reply with
      | transport error => exact absurd rfl (answered error)
      | ok revision => simpa [Rpc.accepts] using accepted
      | refused code conflict error => simpa [Rpc.accepts] using accepted
    obtain ⟨found, same⟩ := Option.isSome_iff_exists.mp prepared
    obtain ⟨target, bytes, there, captured, shape⟩ := prepareWrite_target direct ok (request ▸ same)
    exact ⟨target, bytes, there, captured, shape ▸ same⟩
  cases reply with
  | transport error => trivial
  | ok revision =>
      obtain ⟨target, bytes, there, captured, write⟩ := sent (by simp)
      intro content same
      have this : content = bytes := Option.some.inj (same.symm.trans captured)
      rw [this]
      refine (target_cases ok there).imp (fun here => List.mem_append_right _ ?_)
        fun elsewhere => elsewhere
      simp [Rpc.reports, write, here.1, here.2]
  | refused code conflict error =>
      cases conflict with
      | none => trivial
      | some kind =>
          cases kind with
          | deleted =>
              obtain ⟨target, bytes, there, _, write⟩ := sent (by simp)
              refine (target_cases ok there).imp (fun here => List.mem_append_right _ ?_) fun elsewhere => elsewhere
              simp [Rpc.reports, write, here.1, here.2]
          | changed => trivial
          | appeared => trivial
          | typeChanged => trivial

theorem mergeWriteDone_sound (direct : RelayConflict.Direct id) {reports : List Report}
    {op : Operation} {rpc : Rpc} (ok : (visitedOnly id).OpOk reports op) {token : Token}
    (request : rpc.request = prepareWrite op.identity op.bytes (some token) none)
    {reply : WriteReply} (accepted : rpc.accepts (.inl reply) = true) (old : List Report) :
    (visitedOnly id).SoundReply (old ++ rpc.reports (.inl reply)) (.mergeWriteDone op)
      (.inl reply) := by
  have home : op.identity = some id := ok.home
  cases reply with
  | transport error => trivial
  | refused code conflict error => trivial
  | ok revision =>
      intro bytes captured
      have sent : rpc.request.isSome = true := by simpa [Rpc.accepts] using accepted
      obtain ⟨asked, sent⟩ := Option.isSome_iff_exists.mp sent
      obtain ⟨origin, target, content, there, content_eq, directed, write⟩ :=
        prepareWrite_some (request.symm.trans sent)
      have same : origin = id := Option.some.inj (there.symm.trans home)
      have bytes_eq : content = bytes := Option.some.inj (content_eq.symm.trans captured)
      rw [same] at directed
      obtain ⟨authority, path⟩ := Prod.mk.inj (RelayConflict.rpcTarget_direct direct directed)
      rw [authority, path, bytes_eq] at write
      refine List.mem_append_right _ ?_
      simp [Rpc.reports, sent, write]

theorem conflictRead_restored {op : Operation} {old : List Report} {bytes : Bytes}
    {revision : Token}
    (reported : id.Reported old bytes revision ∨ op.Elsewhere id)
    (separate : op.Separate id bytes) :
    (visitedOnly id).Fetched old op bytes revision ∧
      (visitedOnly id).Restored old op bytes revision := by
  refine ⟨reported.imp_right fun elsewhere => ⟨elsewhere, separate.1 elsewhere⟩, ?_⟩
  intro choice st snapshot localBytes base captured
  have same := separate.2 choice (by rw [snapshot]; exact localBytes)
  have this : base = bytes := Option.some.inj (captured.symm.trans same)
  rw [this]
  refine reported.resolve_right fun elsewhere => ?_
  have saveAs := elsewhere.1
  rw [choice] at saveAs
  cases saveAs

/-- Under a separating event every reply brings in pairs of the visited file only. -/
theorem separating_sound (direct : RelayConflict.Direct id) (held : Held (visitedOnly id) m) {event : Event}
    (separating : Separating id m event) : (visitedOnly id).Sound m event := by
  cases event with
  | rename fileName => exact separating
  | reload bytes revision =>
      intro visited there
      have home : m.fileIdentity = some id := held.stored.home
      have this : visited = id := Option.some.inj (there.symm.trans home)
      rw [this]
      exact List.mem_append_right _ (List.mem_singleton_self _)
  | prefetch authority path bytes revision =>
      intro wanted
      have here : (authority, path) = (id.authority, id.path) := wanted
      rw [Prod.mk.injEq] at here
      rw [here.1, here.2]
      exact List.mem_append_right _ (List.mem_singleton_self _)
  | reply index reply env =>
      intro rpc found accepted
      have ok := held.stored.rpcs rpc (List.mem_of_getElem? found)
      have answered := separating rpc found
      obtain ⟨request, callback⟩ := rpc
      have whole := ok.operation
      have formed := ok.formed
      cases callback with
      | writeDone op =>
          cases reply with
          | inr reply => trivial
          | inl reply => exact writeDone_sound direct whole formed.2 accepted _
      | reconcileRead op failure =>
          cases reply with
          | inl reply => trivial
          | inr reply =>
              cases reply with
              | failed error => trivial
              | ok bytes revision =>
                  exact (read_target_reported direct whole formed.2 accepted _).imp_right
                    fun elsewhere => ⟨elsewhere, answered elsewhere⟩
      | conflictRead op reason =>
          cases reply with
          | inl reply => trivial
          | inr reply =>
              cases reply with
              | ok bytes revision =>
                  exact conflictRead_restored
                    (read_target_reported direct whole formed.2.2 accepted _) answered
              | failed error =>
                  by_cases deleted : reason = .kind .deleted
                  · subst deleted
                    refine conflictRead_restored ?_ answered
                    exact (ok.deleted op rfl).imp_left (List.mem_append_left _)
                  · unfold Policy.SoundReply
                    split <;> simp_all
      | inspected op state =>
          cases reply with
          | inl reply => trivial
          | inr reply =>
              cases reply with
              | failed error => trivial
              | ok bytes revision => exact read_identity_reported direct whole formed.2.2.2 accepted _
      | mergeVerified op =>
          cases reply with
          | inl reply => trivial
          | inr reply =>
              cases reply with
              | failed error => trivial
              | ok bytes revision => exact read_identity_reported direct whole formed.2 accepted _
      | mergeWriteDone op =>
          cases reply with
          | inr reply => trivial
          | inl reply =>
              obtain ⟨_, token, prepared, _⟩ := formed
              exact mergeWriteDone_sound direct whole prepared accepted _
      | mergeLossRead op =>
          cases reply with
          | inl reply => trivial
          | inr reply =>
              cases reply with
              | failed error => trivial
              | ok bytes revision => exact read_identity_reported direct whole formed.2 accepted _
      | mergeConflictRead op reason =>
          cases reply with
          | inl reply => trivial
          | inr reply =>
              cases reply with
              | failed error => trivial
              | ok bytes revision => exact read_identity_reported direct whole formed.2 accepted _
  | _ => trivial

end Sound

/-- BASE, the displayed REMOTE and the cached content of the visited file were reported for it. -/
structure OwnSnapshots (id : Identity) (m : Machine) : Prop where
  base : ∀ b, m.base = some b →
    ∃ bytes, b.bytes = some bytes ∧ id.Reported m.history.reports bytes b.revision
  remote : ∀ st r, m.state = some st → st.remote = some r →
    id.Reported m.history.reports r.bytes r.revision
  cache : ∀ bytes revision, m.cache (id.authority, id.path) = some (bytes, revision) →
    id.Reported m.history.reports bytes revision

/-- In a run of separating events the snapshots of the visited file stay its own, where its path is
not itself a Relay name of the same authority. -/
theorem own_snapshots {codec : Codec} {id : Identity} {bytes : Bytes} {revision : Token}
    {m : Machine} (named : RelayConflict.fileIdentity (some id.filename) = some id)
    (direct : RelayConflict.Direct id)
    (reached : Runs codec (Separating id) (.opened codec id bytes revision) m) :
    OwnSnapshots id m := by
  have held : Held (visitedOnly id) m := by
    refine held_runs (opened_held named (List.mem_singleton_self _)) ?_ reached
    intro s event held separating
    exact separating_sound direct held separating
  refine ⟨held.stored.base, ?_, fun bytes revision => held.stored.cache _ rfl bytes revision⟩
  intro st r state remote
  exact ((held.stored.state st state).remote r remote).1

/-- The visited file name does not change. -/
def Staying (m : Machine) (event : Event) : Prop :=
  ∀ fileName, event = .rename fileName → fileName = m.fileName

theorem own_snapshots_conflicted :
    (runAll asciiCodec visitedFile conflicted).state.isSome = true ∧
    OwnSnapshots ⟨"/relay:h:/f", "h", "/f"⟩ (runAll asciiCodec visitedFile conflicted) := by
  have reached : Runs asciiCodec (Separating ⟨"/relay:h:/f", "h", "/f"⟩) visitedFile
      (runAll asciiCodec visitedFile conflicted) := by
    refine Reaches.of_along .refl ⟨trivial, trivial, ?_, ?_, trivial⟩
    · rintro rpc ⟨⟩
      exact True.intro
    · rintro rpc ⟨⟩
      exact ⟨fun elsewhere => absurd elsewhere.1 (by decide), fun restore => absurd restore (by decide)⟩
  have direct : RelayConflict.Direct ⟨"/relay:h:/f", "h", "/f"⟩ :=
    RelayConflict.direct_of_unparsed (by decide)
  exact ⟨by decide, own_snapshots (by decide) direct reached⟩

/-- LOCAL is saved as another file, which turns out to exist. -/
def savedAsExisting : Machine :=
  runAll asciiCodec visitedFile (conflicted ++
    [.save { key := .choice .saveAs, saveAsName := "/g" },
      .reply 2 (.inl (.refused (some .conflict) (some .appeared) none)) {},
      .reply 3 (.inr (.ok [120] (sampleToken 5))) {}])

/-- The other file's content is then on display as REMOTE of the visited one. -/
theorem save_as_displays_other_file :
    ¬ ∀ m, Runs asciiCodec Staying visitedFile m →
      OwnSnapshots ⟨"/relay:h:/f", "h", "/f"⟩ m := by
  intro own
  have reached : Runs asciiCodec Staying visitedFile savedAsExisting := by
    refine Reaches.of_along .refl ⟨?_, ?_, ?_, ?_, ?_, ?_, ?_, trivial⟩ <;>
    · rintro fileName ⟨⟩
  have remote : savedAsExisting.state.bind (·.remote) = some ⟨[120], sampleToken 5, false⟩ := by
    decide
  obtain ⟨st, state, displayed⟩ := Option.bind_eq_some_iff.mp remote
  have reported := (own savedAsExisting reached).remote st _ state displayed
  have absent : (⟨"h", "/f", [120], sampleToken 5⟩ : Report) ∉ savedAsExisting.history.reports := by
    decide
  exact absent reported

end EmacsRelay
