import EmacsRelay.Client.Reported

set_option autoImplicit false

/- What `keep-remote` adopts when it resolves a conflict of the synchronous path. -/
namespace EmacsRelay.Synchronous

open Routine
open RelaySave (adoptedRemote)

/-- Text and BASE have become bytes and a revision that the server had reported for the path, and
LOCAL is in a new recovery buffer. -/
structure Adopts (codec : Codec) (s : SyncBuffer) (st : Dispute) (t : SyncBuffer) : Prop where
  observed : ∃ bytes token, Here s bytes token ∧ t.base = some ⟨bytes, some token, .utf8⟩ ∧
    codec.encode t.buffer.full = bytes
  recovered : ∃ text ∈ t.recovery.drop s.recovery.length, codec.encode text = st.localBytes

/-- REMOTE was read or stands for a reported deletion, or the path had been reported missing at
another time; and the bytes adopted and LOCAL survive being decoded. -/
structure Adoptable (codec : Codec) (s : SyncBuffer) (st : Dispute) : Prop where
  remote : st.remote.isSome = true ∨ Here s [] .missing
  adopted : codec.RoundTrips (adoptedRemote st.remote).1
  localBytes : codec.RoundTrips st.localBytes

section KeepRemote

variable {codec : Codec} {env : Env} {s t : SyncBuffer} {st : Dispute}

theorem keepRemote_installs (saveAs : Option String) (write : Request → WriteReply)
    (read : ReadReply) :
    wp (resolve codec env st .keepRemote saveAs write read)
      (fun _ t => t.buffer = .whole (codec.decode (adoptedRemote st.remote).1) ∧
        t.base = some ⟨(adoptedRemote st.remote).1, some (adoptedRemote st.remote).2, .utf8⟩ ∧
        t.recovery = s.recovery ++ [codec.decode st.localBytes])
      (fun _ _ => True) s := by
  simp only [resolve, recoveryBuffer, replaceLive, cache, wp_bind, wp_mayFail, wp_fetch, wp_update,
    wp_pure, implies_true, true_and]
  intro _ _ _ _
  exact ⟨rfl, rfl, rfl⟩

/-- What a sound conflict has as its REMOTE was reported. -/
theorem adopted_here (sound : st.Sound s) (remote : st.remote.isSome = true ∨ Here s [] .missing) :
    Here s (adoptedRemote st.remote).1 (adoptedRemote st.remote).2 := by
  cases there : st.remote with
  | none =>
      rw [there] at remote
      rcases remote with impossible | missing
      · cases impossible
      · exact missing
  | some r =>
      obtain ⟨here, deletes⟩ := sound r there
      cases deleted : r.deleted with
      | true =>
          rw [deletes deleted] at here ⊢
          exact here
      | false =>
          have same : adoptedRemote (some r) = (r.bytes, r.revision) := by
            simp [adoptedRemote, deleted]
          rw [same]
          exact here

end KeepRemote

/-- In a buffer that keeps to one path, `keep-remote` adopts what the server reported, and keeps
LOCAL, exactly when the conflict has a REMOTE, or the path had been reported missing before, and the
bytes survive being decoded. -/
theorem keep_remote_adopts_iff {codec : Codec} {env : Env} {s t : SyncBuffer} {st : Dispute}
    {saveAs : Option String} {write : Request → WriteReply} {read : ReadReply} {result : Resolution}
    (reached : SyncRuns codec s) (offered : st ∈ s.offered)
    (returned : resolve codec env st .keepRemote saveAs write read s = (.ok result, t)) :
    Adopts codec s st t ↔ Adoptable codec s st := by
  have sound := (runs_sourced reached).offered st offered
  have installs := post_of_wp (keepRemote_installs saveAs write read) returned
  obtain ⟨text, base, recovery⟩ := installs
  have full : t.buffer.full = codec.decode (adoptedRemote st.remote).1 := by
    rw [text, Buffer.full_whole]
  have fresh : t.recovery.drop s.recovery.length = [codec.decode st.localBytes] := by
    rw [recovery, List.drop_left]
  constructor
  · intro adopts
    obtain ⟨bytes, token, here, based, encoded⟩ := adopts.observed
    obtain ⟨text, member, kept⟩ := adopts.recovered
    rw [base] at based
    have pair : (adoptedRemote st.remote).1 = bytes ∧ (adoptedRemote st.remote).2 = token := by
      cases based
      exact ⟨rfl, rfl⟩
    refine ⟨?_, ?_, ?_⟩
    · cases there : st.remote with
      | some r => exact .inl rfl
      | none =>
          rw [there] at pair
          rw [← pair.1, ← pair.2] at here
          exact .inr here
    · rw [full, ← pair.1] at encoded
      exact encoded
    · rw [fresh] at member
      rw [List.mem_singleton.mp member] at kept
      exact kept
  · intro adoptable
    constructor
    · refine ⟨_, _, adopted_here sound adoptable.remote, base, ?_⟩
      rw [full]
      exact adoptable.adopted
    · refine ⟨codec.decode st.localBytes, ?_, adoptable.localBytes⟩
      rw [fresh]
      exact List.mem_singleton_self _

/-- A file "a" is visited, edited to "ab", and its save is refused as changed. -/
def refusedSave (read : ReadReply) : SyncBuffer :=
  [.insert "/relay:h:/f" 0 true false none (.ok [97] (sampleToken 1)), .edit (.whole ['a', 'b']),
    .save {} ⟨.failed none, fun _ => .refused (some .conflict) (some .changed) none, read⟩].foldl
      (step asciiCodec) {}

theorem refusedSave_runs (read : ReadReply) : SyncRuns asciiCodec (refusedSave read) := by
  refine Reaches.of_along .refl ⟨?_, trivial, trivial, trivial⟩
  intro _
  right
  exact ⟨⟨rfl, rfl⟩, directName_of_unparsed rfl (by decide)⟩

/-- The conflict, with the REMOTE that was read after it. -/
def changedConflict (remote : Option Remote) (classification : Option Classification) : Dispute :=
  { reason := .kind .changed, base := some ⟨[97], some (sampleToken 1), .utf8⟩
    localBytes := [97, 98], remote := remote, classification := classification }

/-- The file has become "z". -/
def readConflict : Dispute :=
  changedConflict (some ⟨[122], sampleToken 2, false⟩) (some .divergent)

/-- `keep-remote`, which makes no request. -/
def keepRemote (st : Dispute) : Act Resolution :=
  resolve asciiCodec {} st .keepRemote none (fun _ => .transport none) (.failed none)

theorem keep_remote_adopts_iff_read :
    readConflict ∈ (refusedSave (.ok [122] (sampleToken 2))).offered ∧
      Adopts asciiCodec (refusedSave (.ok [122] (sampleToken 2))) readConflict
        (keepRemote readConflict (refusedSave (.ok [122] (sampleToken 2)))).2 := by
  have offered : readConflict ∈ (refusedSave (.ok [122] (sampleToken 2))).offered :=
    List.mem_singleton_self _
  have returned : keepRemote readConflict (refusedSave (.ok [122] (sampleToken 2))) =
      (.ok { status := .adoptedRemote, localRecovery := some 0 },
        (keepRemote readConflict (refusedSave (.ok [122] (sampleToken 2)))).2) := rfl
  refine ⟨offered, (keep_remote_adopts_iff (refusedSave_runs _) offered returned).mpr ?_⟩
  exact ⟨.inl rfl, rfl, rfl⟩

/-- The read fails too, and `keep-remote` empties the buffer of a file that exists. -/
theorem keep_remote_adopts_unread :
    ¬ ∀ s, SyncRuns asciiCodec s → ∀ st ∈ s.offered, ∀ env write read result t,
      resolve asciiCodec env st .keepRemote none write read s = (.ok result, t) →
      Adopts asciiCodec s st t := by
  intro all
  have adopts := all _ (refusedSave_runs (.failed none)) (changedConflict none none)
    (List.mem_singleton_self _) {} (fun _ => .transport none) (.failed none) _ _ rfl
  obtain ⟨bytes, token, ⟨id, visiting, member⟩, based, _⟩ := adopts.observed
  have pair : [] = bytes ∧ Token.missing = token := by
    cases based
    exact ⟨rfl, rfl⟩
  rw [← pair.1, ← pair.2] at member
  revert member
  cases visiting
  decide

end EmacsRelay.Synchronous
