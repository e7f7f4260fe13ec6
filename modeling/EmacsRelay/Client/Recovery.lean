import EmacsRelay.Client.Discipline

set_option autoImplicit false

/- What a resolution erases is in the LOCAL recovery buffer made for it. -/
namespace EmacsRelay

open RelaySave

/-- Bytes that survive being decoded and encoded again. -/
def Codec.RoundTrips (codec : Codec) (bytes : Bytes) : Prop :=
  codec.encode (codec.decode bytes) = bytes

/-- The erased text is what the recovery buffer holds, or what was installed. -/
def Erasure.Recovered (codec : Codec) (recovery : List Text) (e : Erasure) : Prop :=
  (e.recovery.bind fun index => recovery[index]?).map codec.encode =
      some (codec.encode e.erased.full) ∨
    e.installed = some (codec.encode e.erased.full)

instance (codec : Codec) (recovery : List Text) (e : Erasure) :
    Decidable (e.Recovered codec recovery) :=
  inferInstanceAs (Decidable (_ ∨ _))

def Installer.Resolution (installer : Installer) : Prop :=
  installer = .keepRemote ∨ installer = .restoreBase

instance (installer : Installer) : Decidable installer.Resolution :=
  inferInstanceAs (Decidable (_ ∨ _))

structure Salvaged (codec : Codec) (d : Desk) : Prop where
  erasures : ∀ e ∈ d.erasures, e.installer.Resolution → e.Recovered codec d.recovery
  active : ∀ op, d.active = some op → op.choice = some .restoreBase →
    op.LocalKept codec d.recovery

variable {codec : Codec} {m : Machine}

theorem Erasure.Recovered.append {recovery : List Text} {e : Erasure}
    (recovered : e.Recovered codec recovery) (more : List Text) :
    e.Recovered codec (recovery ++ more) := by
  rcases recovered with same | installed
  · obtain ⟨text, there, encoded⟩ := Option.map_eq_some_iff.mp same
    obtain ⟨index, named, found⟩ := Option.bind_eq_some_iff.mp there
    refine .inl ?_
    rw [named, Option.bind_some,
      List.getElem?_append_left (List.getElem?_eq_some_iff.mp found).1, found, Option.map_some,
      encoded]
  · exact .inr installed

theorem Operation.LocalKept.append {op : Operation} {recovery : List Text}
    (kept : op.LocalKept codec recovery) (more : List Text) :
    op.LocalKept codec (recovery ++ more) := by
  obtain ⟨index, bytes, named, snapshot, found⟩ := kept
  refine ⟨index, bytes, named, snapshot, ?_⟩
  exact List.getElem?_append_left (List.getElem?_eq_some_iff.mp found).1 ▸ found

/-- Recovery buffers are only added, and operations of another kind need none. -/
theorem Salvaged.extend {d d' : Desk} (inv : Salvaged codec d) {more : List Text}
    (erasures : d'.erasures = d.erasures) (recovery : d'.recovery = d.recovery ++ more)
    (active : ∀ op, d'.active = some op → op.choice = some .restoreBase →
      d.active = some op ∨ op.LocalKept codec d'.recovery) : Salvaged codec d' where
  erasures e member resolution := by
    rw [erasures] at member
    rw [recovery]
    exact (inv.erasures e member resolution).append more
  active op there restore := by
    rcases active op there restore with old | kept
    · rw [recovery]
      exact (inv.active op old restore).append more
    · exact kept

theorem Salvaged.idle {d d' : Desk} (inv : Salvaged codec d) {more : List Text}
    (erasures : d'.erasures = d.erasures) (recovery : d'.recovery = d.recovery ++ more)
    (idle : d'.active = none) : Salvaged codec d' :=
  inv.extend erasures recovery fun op there => by rw [idle] at there; cases there

theorem Salvaged.keep {d d' : Desk} (inv : Salvaged codec d) {more : List Text}
    (erasures : d'.erasures = d.erasures) (recovery : d'.recovery = d.recovery ++ more)
    (same : d'.active = d.active) : Salvaged codec d' :=
  inv.extend erasures recovery fun _ there _ => .inl (same ▸ there)

/-- One more erasure, recovered if it resolves a conflict. -/
theorem Salvaged.erase {d d' : Desk} (inv : Salvaged codec d) {more : List Text} {e : Erasure}
    (erasures : d'.erasures = d.erasures ++ [e]) (recovery : d'.recovery = d.recovery ++ more)
    (recovered : e.installer.Resolution → e.Recovered codec d'.recovery)
    (active : d'.active = none ∨ d'.active = d.active) : Salvaged codec d' where
  erasures other member resolution := by
    rw [erasures] at member
    rcases List.mem_append.mp member with old | fresh
    · rw [recovery]
      exact (inv.erasures other old resolution).append more
    · rw [List.mem_singleton.mp fresh] at resolution ⊢
      exact recovered resolution
  active op there restore := by
    rcases active with idle | same
    · rw [idle] at there
      cases there
    · rw [recovery]
      exact (inv.active op (same ▸ there) restore).append more

/-- A restored BASE erases exactly LOCAL when nothing is hidden by narrowing. -/
theorem restore_recovered {d : Desk} {op : Operation} (inv : Salvaged codec d)
    (active : d.active = some op) (choice : op.choice = some .restoreBase)
    (wide : ¬ d.buffer.Narrowed)
    (same : op.snapshot.bind (·.localBytes) = some (codec.encode d.buffer.visible))
    (trips : codec.RoundTrips (codec.encode d.buffer.visible)) (installed : Option Bytes) :
    Erasure.Recovered codec d.recovery ⟨.restoreBase, d.buffer, installed, op.localRecovery⟩ := by
  obtain ⟨index, bytes, named, snapshot, found⟩ := inv.active op active choice
  have local_eq : bytes = codec.encode d.buffer.visible :=
    Option.some.inj (snapshot.symm.trans same)
  refine .inl ?_
  rw [named, Option.bind_some, found, Option.map_some, Buffer.full_of_not_narrowed wide, local_eq]
  exact congrArg some trips

/-- Adopting REMOTE erases exactly LOCAL, or what it installs. -/
def Adoptable (codec : Codec) (st : ConflictState) (b : Buffer) : Prop :=
  (st.localBytes = some (codec.encode b.full) ∧ codec.RoundTrips (codec.encode b.full)) ∨
    codec.encode b.full = (adoptedRemote st.remote).1

theorem adopt_recovered {st : ConflictState} {b : Buffer} {bytes : Bytes}
    (adoptable : Adoptable codec st b) (recovered : st.localBytes = some bytes)
    (recovery : List Text) :
    Erasure.Recovered codec (recovery ++ [codec.decode bytes])
      ⟨.keepRemote, b, some (adoptedRemote st.remote).1, some recovery.length⟩ := by
  rcases adoptable with ⟨same, trips⟩ | installed
  · have local_eq : bytes = codec.encode b.full := Option.some.inj (recovered.symm.trans same)
    refine .inl ?_
    rw [Option.bind_some, List.getElem?_concat_length, Option.map_some, local_eq]
    exact congrArg some trips
  · exact .inr (congrArg some installed.symm)

/-- A restore-base whose LOCAL is still the visible text is completed in a wide buffer. -/
def Restorable (codec : Codec) (d : Desk) : Prop :=
  ∀ op, d.active = some op → op.choice = some .restoreBase →
    op.snapshot.bind (·.localBytes) = some (codec.encode d.buffer.visible) →
    ¬ d.buffer.Narrowed ∧ codec.RoundTrips (codec.encode d.buffer.visible)

def salvage (codec : Codec) (env : Env) : Discipline codec env where
  inv := Salvaged codec
  completing := Restorable codec
  adopting st d := Adoptable codec st d.buffer
  losing _ _ := True
  doubting _ _ := True
  edits _ inv := inv.keep rfl (List.append_nil _).symm rfl
  dirties inv := inv.keep rfl (List.append_nil _).symm rfl
  keeps _ inv := inv.keep rfl rfl rfl
  queues inv _ _ := inv.keep rfl (List.append_nil _).symm rfl
  starts inv kept := inv.extend rfl (List.append_nil _).symm (by
    rintro _ ⟨⟩ restore
    exact .inr (kept restore))
  inspects inv _ := inv.extend rfl (List.append_nil _).symm (by
    rintro _ ⟨⟩ restore
    cases restore)
  sends inv _ _ := inv.keep rfl (List.append_nil _).symm rfl
  fails _ conflict inv _ _ := by
    cases conflict <;> exact inv.idle rfl (List.append_nil _).symm rfl
  retains _ _ inv _ _ _ := inv.idle rfl (List.append_nil _).symm rfl
  loses _ inv _ _ := inv.idle rfl (List.append_nil _).symm rfl
  hollow _ _ _ := trivial
  begins _ _ := trivial
  refuses _ _ _ inv _ _ _ _ := inv.idle rfl rfl rfl
  clears inv _ := inv.idle rfl (List.append_nil _).symm rfl
  completes _ _ := nofun
  displays _ inv _ _ _ := inv.keep rfl (List.append_nil _).symm rfl
  recordsDirty _ _ _ inv _ _ := inv.keep rfl (List.append_nil _).symm rfl
  recordsClean _ _ inv _ _ _ _ := inv.keep rfl (List.append_nil _).symm rfl
  restores inv active choice restorable same := by
    obtain ⟨wide, trips⟩ := restorable _ active choice same.symm
    exact inv.erase rfl (List.append_nil _).symm
      (fun _ => restore_recovered inv active choice wide same.symm trips _) (.inl rfl)
  restored _ _ inv active choice restorable _ same _ := by
    obtain ⟨wide, trips⟩ := restorable _ active choice same.symm
    exact inv.erase rfl (List.append_nil _).symm
      (fun _ => restore_recovered inv active choice wide same.symm trips _) (.inl rfl)
  recordsOnly _ _ _ inv _ _ _ := inv.keep rfl (List.append_nil _).symm rfl
  merges _ _ _ inv _ _ := inv.erase rfl (List.append_nil _).symm (fun r => nomatch r) (.inr rfl)
  merged _ _ inv _ _ _ _ :=
    inv.erase rfl (List.append_nil _).symm (fun r => nomatch r) (.inr rfl)
  adopts inv _ adoptable recovered :=
    inv.erase rfl rfl (fun _ => adopt_recovered adoptable recovered _) (.inr rfl)
  adopted _ inv _ _ adoptable recovered :=
    inv.erase rfl rfl (fun _ => adopt_recovered adoptable recovered _) (.inr rfl)
  narrows inv _ := inv.keep rfl (List.append_nil _).symm rfl
  renames _ inv := inv.keep rfl (List.append_nil _).symm rfl
  reloads bytes revision inv := by
    unfold Machine.reload
    split
    · exact inv
    · exact inv.erase rfl (List.append_nil _).symm (fun r => nomatch r) (.inr rfl)
  expires inv _ := inv.keep rfl (List.append_nil _).symm rfl
  dies inv := inv.keep rfl (List.append_nil _).symm rfl
  abandons _ inv _ := inv.keep rfl (List.append_nil _).symm rfl

/-- Where a resolution loses nothing: REMOTE is adopted over a text that is the snapshot's LOCAL
or REMOTE itself, and a restore-base is completed in a wide buffer. -/
def Preserving (codec : Codec) (m : Machine) : Event → Prop
  | .save env => m.status = some .conflict → ∀ st, m.state = some st →
      readConflictChoice (some st) env.key = some .keepRemote → Adoptable codec st m.buffer
  | .reply _ _ _ => Restorable codec m.desk
  | _ => True

theorem preserving_permits {event : Event} (preserving : Preserving codec m event) :
    (salvage codec event.env).Permits m event := by
  cases event with
  | reply index reply env => exact fun _ _ _ _ => ⟨preserving, by simp [salvage], by simp [salvage],
      by simp [salvage], by simp [salvage]⟩
  | save env => exact preserving
  | _ => trivial

/-- In a run of such steps, everything keep-remote and restore-base erased can be recovered. -/
theorem erased_text_recovered {identity : Identity} {bytes : Bytes} {revision : Token}
    (reached : Runs codec (Preserving codec) (.opened codec identity bytes revision) m) :
    ∀ e ∈ m.history.erasures, e.installer.Resolution → e.Recovered codec m.recovery := by
  have salvaged : Salvaged codec m.desk := by
    refine discipline_runs ⟨by simp [Machine.desk, Machine.opened],
      by simp [Machine.desk, Machine.opened]⟩ ?_ reached
    intro s event _ _ preserving
    exact ⟨salvage codec event.env, rfl, preserving_permits preserving⟩
  exact salvaged.erasures

/-- REMOTE is adopted at once. -/
def adopted : Machine :=
  runAll asciiCodec visitedFile (conflicted ++ [.save { key := .choice .keepRemote }])

theorem erased_text_recovered_adopting :
    adopted.history.erasures.map (·.installer) = [.keepRemote] ∧
    ∀ e ∈ adopted.history.erasures, e.installer.Resolution →
      e.Recovered asciiCodec adopted.recovery := by
  have reached : Runs asciiCodec (Preserving asciiCodec) visitedFile adopted := by
    refine Reaches.of_along .refl ⟨trivial, ?_, ?_, ?_, ?_, trivial⟩
    · exact fun conflict => nomatch conflict
    · rintro op ⟨⟩ restore
      cases restore
    · rintro op ⟨⟩ restore
      cases restore
    · rintro _ st ⟨⟩ _
      exact .inl ⟨rfl, rfl⟩
  exact ⟨by decide, erased_text_recovered reached⟩

/-- Editing goes on after the conflict is reported, then REMOTE is adopted. -/
def adoptedLate : Machine :=
  runAll asciiCodec visitedFile
    (conflicted ++ [.edit (.whole ['a', 'b', 'c']), .save { key := .choice .keepRemote }])

/-- Only the text of the snapshot is recovered, not the edits made since. -/
theorem keep_remote_discards_later_edits :
    ¬ ∀ m, Runs asciiCodec AnyStep visitedFile m →
      ∀ e ∈ m.history.erasures, e.installer.Resolution → e.Recovered asciiCodec m.recovery := by
  intro recovered
  have lost := recovered adoptedLate (runs_any _ _ _)
    ⟨.keepRemote, .whole ['a', 'b', 'c'], some [122], some 0⟩ (by decide) (by decide)
  revert lost
  decide

end EmacsRelay
