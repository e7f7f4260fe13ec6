import EmacsRelay.Client.Recovery

set_option autoImplicit false

/- A buffer that a completion marked unmodified holds the bytes of BASE. -/
namespace EmacsRelay

open RelaySave

/-- Every byte string put in the buffer survives being decoded and encoded again. -/
def Installed (codec : Codec) (erasures : List Erasure) : Prop :=
  ∀ e ∈ erasures, ∀ bytes, e.installed = some bytes → codec.RoundTrips bytes

/-- While the bit is clear the text is BASE, and it was cleared for the file then visited. -/
def CleanlyMarked (codec : Codec) (base : Option Base) (b : Buffer) (cleaned : Option Cleaning) :
    Prop :=
  ∀ c, cleaned = some c →
    base.bind (·.bytes) = some (codec.encode b.full) ∧ identityEqual c.owner c.visited = true

def Clean (codec : Codec) (d : Desk) : Prop :=
  Installed codec d.erasures → CleanlyMarked codec d.base d.buffer d.cleaned

variable {codec : Codec} {m : Machine}

theorem Clean.marked {d : Desk} (dirty : d.cleaned = none) : Clean codec d := by
  intro _ c cleared
  rw [dirty] at cleared
  cases cleared

/-- The visible bytes recorded as BASE, when nothing is hidden. -/
theorem Clean.confirmed {d : Desk} {c : Cleaning} (wide : ¬ d.buffer.Narrowed)
    (base : d.base.bind (·.bytes) = some (codec.encode d.buffer.visible))
    (cleaned : d.cleaned = some c) (owned : identityEqual c.owner c.visited = true) :
    Clean codec d := by
  intro _ c' same
  have this : c' = c := Option.some.inj (same.symm.trans cleaned)
  rw [Buffer.full_of_not_narrowed wide]
  exact ⟨base, this ▸ owned⟩

/-- Freshly decoded bytes recorded as BASE, for the file visited. -/
theorem Clean.installed {d : Desk} {bytes : Bytes} {e : Erasure} {c : Cleaning}
    (text : d.buffer = .whole (codec.decode bytes)) (base : d.base.bind (·.bytes) = some bytes)
    (cleaned : d.cleaned = some c) (owned : identityEqual c.owner c.visited = true)
    (erased : e ∈ d.erasures) (put : e.installed = some bytes) : Clean codec d := by
  intro trips c' same
  have this : c' = c := Option.some.inj (same.symm.trans cleaned)
  refine ⟨?_, this ▸ owned⟩
  rw [base, text, Buffer.full_whole]
  exact congrArg some (trips e erased bytes put).symm

/-- Completions run in a wide buffer and the text can be replaced. -/
def cleanliness (codec : Codec) (env : Env) : Discipline codec env where
  inv := Clean codec
  completing d := ¬ d.buffer.Narrowed ∧ env.fails .erase = false
  adopting st d := identityEqual st.owner (RelayConflict.fileIdentity d.fileName) = true
  losing _ _ := True
  doubting _ _ := True
  edits _ _ := .marked rfl
  dirties _ := .marked rfl
  keeps _ inv := inv
  queues inv _ _ := inv
  starts _ _ := .marked rfl
  inspects inv _ := inv
  sends inv _ _ := inv
  fails _ conflict _ _ _ := by cases conflict <;> exact .marked rfl
  retains _ _ _ _ _ _ := .marked rfl
  loses _ _ _ _ := .marked rfl
  hollow _ _ _ := trivial
  begins _ _ := trivial
  refuses _ _ _ _ _ _ _ _ := .marked rfl
  clears inv _ := inv
  completes completing := completing
  displays _ inv _ _ _ := inv
  recordsDirty _ _ _ _ _ _ := .marked rfl
  recordsClean _ _ _ _ completing same bytes :=
    Clean.confirmed completing.1 bytes.symm rfl same
  restores _ _ _ _ _ := .marked rfl
  restored _ _ _ _ _ _ same _ captured :=
    Clean.installed rfl captured rfl same (List.mem_append_right _ (List.mem_singleton_self _)) rfl
  recordsOnly _ _ _ _ _ completing fails := by
    rw [completing.2] at fails
    cases fails
  merges _ _ _ _ _ _ := .marked rfl
  merged _ _ _ _ _ same captured :=
    Clean.installed rfl captured rfl same (List.mem_append_right _ (List.mem_singleton_self _)) rfl
  adopts _ _ _ _ := .marked rfl
  adopted _ _ _ _ owned _ :=
    Clean.installed rfl rfl rfl owned (List.mem_append_right _ (List.mem_singleton_self _)) rfl
  narrows inv same := by
    intro trips c cleared
    obtain ⟨base, owned⟩ := inv trips c cleared
    refine ⟨base.trans ?_, owned⟩
    exact congrArg (fun text => some (codec.encode text)) same.symm
  renames _ inv := inv
  reloads bytes revision inv := by
    unfold Machine.reload
    split
    · exact inv
    · rename_i identity visited
      refine Clean.installed rfl rfl rfl ?_
        (List.mem_append_right _ (List.mem_singleton_self _)) rfl
      rw [visited]
      exact identityEqual_self identity
  expires inv _ := inv
  dies inv := inv
  abandons _ inv _ := inv

/-- Where the bit is cleared soundly: completions run in a wide buffer that can be erased, and
REMOTE is adopted only for the file its snapshot was taken for. -/
def Attributed (m : Machine) : Event → Prop
  | .save env => m.status = some .conflict → ∀ st, m.state = some st →
      readConflictChoice (some st) env.key = some .keepRemote →
      identityEqual st.owner m.fileIdentity = true
  | .reply _ _ env => ¬ m.buffer.Narrowed ∧ env.fails .erase = false
  | _ => True

theorem attributed_permits {event : Event} (attributed : Attributed m event) :
    (cleanliness codec event.env).Permits m event := by
  cases event with
  | reply index reply env => exact fun _ _ _ _ => ⟨attributed, by simp [cleanliness],
      by simp [cleanliness], by simp [cleanliness], by simp [cleanliness]⟩
  | save env => exact attributed
  | _ => trivial

/-- In a run of such steps, a buffer left unmodified by a completion holds the bytes of BASE, and
the completion was for the file it visited. -/
theorem clean_buffer_is_base {identity : Identity} {bytes : Bytes} {revision : Token}
    (reached : Runs codec Attributed (.opened codec identity bytes revision) m)
    (trips : Installed codec m.history.erasures) :
    CleanlyMarked codec m.base m.buffer m.history.cleaned := by
  have clean : Clean codec m.desk := by
    refine discipline_runs (Clean.marked rfl) ?_ reached
    intro s event _ _ attributed
    exact ⟨cleanliness codec event.env, rfl, attributed_permits attributed⟩
  exact clean trips

/-- The conflict is resolved by adopting REMOTE after the buffer was made to visit another
file. -/
def adoptedElsewhere : Machine :=
  runAll asciiCodec visitedFile
    (conflicted ++ [.rename (some "/relay:h:/g"), .save { key := .choice .keepRemote }])

theorem clean_buffer_is_base_adopted :
    adopted.modified = false ∧ adopted.history.cleaned.isSome = true ∧
    CleanlyMarked asciiCodec adopted.base adopted.buffer adopted.history.cleaned := by
  have reached : Runs asciiCodec Attributed visitedFile adopted := by
    refine Reaches.of_along .refl ⟨trivial, ?_, ⟨by decide, rfl⟩, ⟨by decide, rfl⟩, ?_, trivial⟩
    · exact fun conflict => nomatch conflict
    · rintro _ st ⟨⟩ _
      decide
  refine ⟨by decide, by decide, clean_buffer_is_base reached ?_⟩
  intro e member bytes put
  have erased : e = ⟨.keepRemote, .whole ['a', 'b'], some [122], some 0⟩ :=
    List.mem_singleton.mp member
  rw [erased] at put
  cases put
  rfl

/-- The other file's buffer is marked unmodified although REMOTE was read from the first. -/
theorem keep_remote_cleans_renamed_buffer :
    ¬ ∀ m, Runs asciiCodec AnyStep visitedFile m → Installed asciiCodec m.history.erasures →
      CleanlyMarked asciiCodec m.base m.buffer m.history.cleaned := by
  intro clean
  have marked := clean adoptedElsewhere (runs_any _ _ _) (by
    intro e member bytes put
    have erased : e = ⟨.keepRemote, .whole ['a', 'b'], some [122], some 0⟩ :=
      List.mem_singleton.mp member
    rw [erased] at put
    cases put
    rfl)
    ⟨some ⟨"/relay:h:/f", "h", "/f"⟩, some ⟨"/relay:h:/g", "h", "/g"⟩⟩ (by decide)
  exact absurd marked.2 (by decide)

end EmacsRelay
