import EmacsRelay.Server.Framing

set_option autoImplicit false

/- The replies of `readdir_stream` in `server/src/fs_handlers.rs`. -/
namespace EmacsRelay.Server

/-- `READDIR_CHUNK_SIZE`. -/
def readdirChunkSize : Nat := 2000

/-- The payload of a reply to `readdir`: a chunk with `more`, the last reply, or an error. -/
inductive ReaddirReply (ε α : Type) where
  | chunk (entries : List ε)
  | last (entries : List ε) (selfAttrs : α)
  | error (text : String)
deriving DecidableEq, Repr

namespace ReaddirReply

variable {ε α : Type}

def more : ReaddirReply ε α → Bool
  | .chunk _ => true
  | _ => false

def entries : ReaddirReply ε α → List ε
  | .chunk entries => entries
  | .last entries _ => entries
  | .error _ => []

end ReaddirReply

section

variable {ε α : Type}

/-- The loop of `readdir_stream`: chunks that were sent, and the batch left over unless a chunk
could not be sent. `accepts n` holds when the writer thread is there to take the chunk after `n`
others. -/
def readdirLoop (accepts : Nat → Bool) : List ε → Nat → List ε → List (List ε) × Option (List ε)
  | batch, _, [] => ([], some batch)
  | batch, sent, entry :: rd =>
      let batch := batch ++ [entry]
      if readdirChunkSize ≤ batch.length then
        if accepts sent then
          let (chunks, left) := readdirLoop accepts [] (sent + 1) rd
          (batch :: chunks, left)
        else ([], none)
      else readdirLoop accepts batch sent rd

/-- `rd.flatten()`: entries that cannot be read are left out. -/
def readable (rd : List (Option ε)) : List ε := rd.filterMap id

/-- `framing::send`, of a payload of SIZE bytes. -/
def sendReply (size : ReaddirReply ε α → Nat) (reply : ReaddirReply ε α) : List (ReaddirReply ε α) :=
  if size reply ≤ maxFrameBytes then [reply] else []

/-- `readdir_stream`. The directory cannot be opened, or `rd` holds the entries as they come, one
that cannot be read as `none`. -/
def readdirStream (size : ReaddirReply ε α → Nat) (accepts : Nat → Bool) (selfAttrs : α) :
    Except String (List (Option ε)) → List (ReaddirReply ε α)
  | .error e => sendReply size (.error ("readdir: " ++ e))
  | .ok rd =>
      match readdirLoop accepts [] 0 (readable rd) with
      | (chunks, none) => chunks.map .chunk
      | (chunks, some batch) => chunks.map .chunk ++ sendReply size (.last batch selfAttrs)

/-- Entries are put into batches that are full, except the last. -/
theorem readdirLoop_batches (accepts : Nat → Bool) (rd batch : List ε) (sent : Nat)
    (room : batch.length < readdirChunkSize) :
    (∀ chunk ∈ (readdirLoop accepts batch sent rd).1, chunk.length = readdirChunkSize) ∧
      ∀ left, (readdirLoop accepts batch sent rd).2 = some left →
        left.length < readdirChunkSize ∧
          (readdirLoop accepts batch sent rd).1.flatten ++ left = batch ++ rd := by
  induction rd generalizing batch sent with
  | nil =>
      constructor
      · exact nofun
      · intro left same
        have same : batch = left := Option.some.inj same
        subst same
        exact ⟨room, by simp [readdirLoop]⟩
  | cons entry rd ih =>
      have grown : (batch ++ [entry]).length = batch.length + 1 := by simp
      unfold readdirLoop
      by_cases full : readdirChunkSize ≤ (batch ++ [entry]).length
      · simp only [full, if_true]
        cases accepts sent with
        | false => exact ⟨nofun, nofun⟩
        | true =>
            obtain ⟨sizes, whole⟩ := ih [] (sent + 1) (by show 0 < 2000; omega)
            constructor
            · intro chunk member
              rcases List.mem_cons.mp member with rfl | later
              · omega
              · exact sizes chunk later
            · intro left same
              obtain ⟨small, parts⟩ := whole left same
              refine ⟨small, ?_⟩
              rw [if_pos rfl, List.flatten_cons, List.append_assoc, parts]
              simp
      · simp only [full, if_false]
        obtain ⟨sizes, whole⟩ := ih (batch ++ [entry]) sent (by omega)
        refine ⟨sizes, fun left same => ?_⟩
        rw [(whole left same).2]
        exact ⟨(whole left same).1, by simp⟩

/-- The loop runs to its end when the writer thread takes every chunk. -/
theorem readdirLoop_ends (accepts : Nat → Bool) (rd batch : List ε) (sent : Nat)
    (room : batch.length < readdirChunkSize) :
    (readdirLoop accepts batch sent rd).2 ≠ none ↔
      ∀ n < (batch.length + rd.length) / readdirChunkSize, accepts (sent + n) = true := by
  have size : readdirChunkSize = 2000 := rfl
  induction rd generalizing batch sent with
  | nil =>
      have none : (batch.length + ([] : List ε).length) / readdirChunkSize = 0 := by
        rw [List.length_nil, size]
        omega
      rw [none]
      simp [readdirLoop]
  | cons entry rd ih =>
      have grown : (batch ++ [entry]).length = batch.length + 1 := by simp
      unfold readdirLoop
      by_cases full : readdirChunkSize ≤ (batch ++ [entry]).length
      · have one_more : (batch.length + (entry :: rd).length) / readdirChunkSize =
            (([] : List ε).length + rd.length) / readdirChunkSize + 1 := by
          rw [List.length_cons, List.length_nil, size]
          omega
        rw [one_more]
        simp only [full, if_true]
        cases taken : accepts sent with
        | false =>
            simp only [Bool.false_eq_true, if_false, ne_eq, not_true_eq_false, false_iff]
            intro all
            have first := all 0 (Nat.succ_pos _)
            rw [Nat.add_zero, taken] at first
            cases first
        | true =>
            simp only [if_true]
            apply (ih [] (sent + 1) (by rw [size, List.length_nil]; omega)).trans
            constructor
            · intro all n small
              cases n with
              | zero => exact taken
              | succ n =>
                  have next := all n (by omega)
                  rwa [Nat.add_assoc, Nat.add_comm 1 n] at next
            · intro all n small
              have next := all (n + 1) (by omega)
              rwa [Nat.add_comm n 1, ← Nat.add_assoc] at next
      · have same : (batch.length + (entry :: rd).length) / readdirChunkSize =
            ((batch ++ [entry]).length + rd.length) / readdirChunkSize := by
          rw [List.length_cons, grown]
          congr 1
          omega
        rw [same]
        simp only [full, if_false]
        exact ih (batch ++ [entry]) sent (by omega)

/-- The entries left over for the last reply. -/
def remainder (entries : List ε) : List ε :=
  entries.drop (readdirChunkSize * (entries.length / readdirChunkSize))

theorem flatten_length {chunks : List (List ε)} {size : Nat}
    (sizes : ∀ chunk ∈ chunks, chunk.length = size) :
    chunks.flatten.length = size * chunks.length := by
  induction chunks with
  | nil => rfl
  | cons chunk chunks ih =>
      have first := sizes chunk List.mem_cons_self
      have others := ih fun chunk later => sizes chunk (List.mem_cons_of_mem _ later)
      rw [List.flatten_cons, List.length_append, first, others, List.length_cons, Nat.mul_succ]
      omega

theorem readdirLoop_left {accepts : Nat → Bool} {entries left : List ε}
    (ends : (readdirLoop accepts [] 0 entries).2 = some left) : left = remainder entries := by
  have size : readdirChunkSize = 2000 := rfl
  obtain ⟨sizes, whole⟩ :=
    readdirLoop_batches accepts entries [] 0 (by rw [size, List.length_nil]; omega)
  obtain ⟨small, parts⟩ := whole left ends
  have count := flatten_length sizes
  have lengths := congrArg List.length parts
  rw [List.nil_append] at parts lengths
  rw [List.length_append, count] at lengths
  have quotient : entries.length / readdirChunkSize =
      (readdirLoop accepts [] 0 entries).1.length := by
    rw [size] at small lengths ⊢
    omega
  calc left = ((readdirLoop accepts [] 0 entries).1.flatten ++ left).drop
          (readdirLoop accepts [] 0 entries).1.flatten.length := List.drop_left.symm
    _ = remainder entries := by rw [parts, remainder, quotient, count]

theorem chunks_eq_map {chunks : List (List ε)} {entries left : List ε} {size : Nat}
    (sizes : ∀ chunk ∈ chunks, chunk.length = size) (parts : chunks.flatten ++ left = entries) :
    chunks = (List.range chunks.length).map fun k => (entries.drop (size * k)).take size := by
  induction chunks generalizing entries with
  | nil => rfl
  | cons chunk chunks ih =>
      have first := sizes chunk List.mem_cons_self
      rw [List.flatten_cons, List.append_assoc] at parts
      have later := ih (fun other member => sizes other (List.mem_cons_of_mem _ member)) rfl
      rw [← parts, List.length_cons, List.range_succ_eq_map, List.map_cons, List.map_map]
      congr 1
      · rw [Nat.mul_zero, List.drop_zero, ← first, List.take_left]
      · apply later.trans
        apply List.map_congr_left
        intro k _
        have behind : size * (k + 1) = chunk.length + size * k := by
          rw [first, Nat.mul_succ, Nat.add_comm]
        simp only [Function.comp_apply, Nat.succ_eq_add_one]
        rw [behind, ← List.drop_drop, List.drop_left]

/-- A listing whose chunks are all taken. -/
theorem readdirStream_complete (size : ReaddirReply ε α → Nat) (selfAttrs : α)
    (rd : List (Option ε)) :
    readdirStream size (fun _ => true) selfAttrs (.ok rd) =
      ((List.range ((readable rd).length / readdirChunkSize)).map fun k =>
        .chunk (((readable rd).drop (readdirChunkSize * k)).take readdirChunkSize)) ++
      sendReply size (.last (remainder (readable rd)) selfAttrs) := by
  have chunk_size : readdirChunkSize = 2000 := rfl
  have room : ([] : List ε).length < readdirChunkSize := Nat.zero_lt_succ _
  have ends := (readdirLoop_ends (fun _ => true) (readable rd) [] 0 room).mpr fun _ _ => rfl
  obtain ⟨left, ended⟩ := Option.ne_none_iff_exists'.mp ends
  obtain ⟨sizes, whole⟩ := readdirLoop_batches (fun _ => true) (readable rd) [] 0 room
  obtain ⟨small, parts⟩ := whole left ended
  have batches := chunks_eq_map sizes parts
  have lengths := congrArg List.length parts
  rw [List.nil_append, List.length_append, flatten_length sizes] at lengths
  have count : (readdirLoop (fun _ => true) [] 0 (readable rd)).1.length =
      (readable rd).length / readdirChunkSize := by
    rw [chunk_size] at small lengths ⊢
    omega
  rw [count, List.nil_append] at batches
  have loop : readdirLoop (fun _ => true) [] 0 (readable rd) =
      ((List.range ((readable rd).length / readdirChunkSize)).map fun k =>
        ((readable rd).drop (readdirChunkSize * k)).take readdirChunkSize, some left) :=
    Prod.ext batches ended
  simp only [readdirStream]
  rw [loop]
  dsimp only
  rw [readdirLoop_left ended, List.map_map]
  rfl

/-- The replies of one request are chunks of one size and a reply without `more`. -/
def WellShaped (replies : List (ReaddirReply ε α)) : Prop :=
  ∃ (chunks : List (List ε)) (last : ReaddirReply ε α), replies = chunks.map .chunk ++ [last] ∧
    (∀ chunk ∈ chunks, chunk.length = readdirChunkSize) ∧ last.more = false

/-- The writer thread takes every chunk, and the reply without `more` fits in a frame. -/
def Completes (size : ReaddirReply ε α → Nat) (accepts : Nat → Bool) (selfAttrs : α) :
    Except String (List (Option ε)) → Prop
  | .error e => size (.error ("readdir: " ++ e)) ≤ maxFrameBytes
  | .ok rd =>
      (∀ n < (readable rd).length / readdirChunkSize, accepts n = true) ∧
        size (.last (remainder (readable rd)) selfAttrs) ≤ maxFrameBytes

theorem not_wellShaped_chunks (chunks : List (List ε)) :
    ¬ WellShaped (α := α) (chunks.map .chunk) := by
  intro ⟨others, last, same, _, final⟩
  have member : last ∈ chunks.map (ReaddirReply.chunk (α := α)) := by
    rw [same]
    exact List.mem_append_right _ (List.mem_singleton_self _)
  obtain ⟨chunk, _, rfl⟩ := List.mem_map.mp member
  cases final

variable {size : ReaddirReply ε α → Nat} {accepts : Nat → Bool} {selfAttrs : α}

/-- The replies to one `readdir` are full chunks, as many as there are, and one reply without
`more`, exactly when nothing stops the last reply. -/
theorem readdirStream_wellShaped (opened : Except String (List (Option ε))) :
    WellShaped (readdirStream size accepts selfAttrs opened) ↔
      Completes size accepts selfAttrs opened := by
  cases opened with
  | error e =>
      simp only [readdirStream, sendReply, Completes]
      constructor
      · intro shaped
        apply Classical.byContradiction
        intro large
        rw [if_neg large] at shaped
        exact not_wellShaped_chunks [] shaped
      · intro fits
        rw [if_pos fits]
        exact ⟨[], _, rfl, nofun, rfl⟩
  | ok rd =>
      have room : ([] : List ε).length < readdirChunkSize := Nat.zero_lt_succ _
      have ends := readdirLoop_ends accepts (readable rd) [] 0 room
      have sizes := (readdirLoop_batches accepts (readable rd) [] 0 room).1
      simp only [Nat.zero_add, List.length_nil] at ends
      simp only [readdirStream, Completes, ← ends]
      match loop : readdirLoop accepts [] 0 (readable rd) with
      | (chunks, none) =>
          constructor
          · intro shaped
            exact absurd shaped (not_wellShaped_chunks chunks)
          · intro ⟨finished, _⟩
            exact absurd rfl finished
      | (chunks, some left) =>
          have ends : (readdirLoop accepts [] 0 (readable rd)).2 = some left := congrArg Prod.snd loop
          rw [← readdirLoop_left ends]
          simp only [sendReply]
          constructor
          · intro shaped
            refine ⟨nofun, ?_⟩
            apply Classical.byContradiction
            intro large
            rw [if_neg large, List.append_nil] at shaped
            exact not_wellShaped_chunks chunks shaped
          · intro ⟨_, fits⟩
            rw [if_pos fits]
            rw [loop] at sizes
            exact ⟨chunks, _, rfl, sizes, rfl⟩

theorem append_singleton_split {xs before after : List ε} {y z : ε}
    (parts : xs ++ [y] = before ++ z :: after) (absent : z ∉ xs) :
    before = xs ∧ z = y ∧ after = [] := by
  rcases List.append_eq_append_iff.mp parts with ⟨more, front, back⟩ | ⟨more, front, back⟩
  · cases more with
    | nil =>
        rw [List.append_nil] at front
        injection back with head tail
        exact ⟨front, head.symm, tail.symm⟩
    | cons first rest =>
        have lengths := congrArg List.length back
        simp at lengths
  · cases more with
    | nil =>
        rw [List.append_nil] at front
        injection back with head tail
        exact ⟨front.symm, head, tail⟩
    | cons first rest =>
        injection back with head _
        rw [front, head] at absent
        simp at absent

/-- What arrives without `more` and is no error ends a listing that has every entry. -/
theorem readdirStream_last {opened : Except String (List (Option ε))}
    {before after : List (ReaddirReply ε α)} {entries : List ε} {attrs : α}
    (parts : readdirStream size accepts selfAttrs opened = before ++ .last entries attrs :: after) :
    ∃ rd, opened = .ok rd ∧ attrs = selfAttrs ∧ (∀ reply ∈ before, reply.more = true) ∧
      (before.flatMap ReaddirReply.entries) ++ entries = readable rd ∧ after = [] := by
  have member : .last entries attrs ∈ readdirStream size accepts selfAttrs opened := by
    rw [parts]
    simp
  cases opened with
  | error e =>
      simp only [readdirStream, sendReply] at member
      split at member
      · simp at member
      · cases member
  | ok rd =>
      have room : ([] : List ε).length < readdirChunkSize := Nat.zero_lt_succ _
      have whole := (readdirLoop_batches accepts (readable rd) [] 0 room).2
      have absent : ∀ chunks : List (List ε),
          ReaddirReply.last entries attrs ∉ chunks.map (ReaddirReply.chunk (α := α)) := by
        intro chunks
        simp
      simp only [readdirStream] at parts member
      match loop : readdirLoop accepts [] 0 (readable rd) with
      | (chunks, none) =>
          rw [loop] at member
          exact absurd member (absent chunks)
      | (chunks, some left) =>
          rw [loop] at parts member whole
          simp only [sendReply] at parts member
          split at parts
          · obtain ⟨front, same, after_nil⟩ := append_singleton_split parts (absent chunks)
            injection same with entries_eq attrs_eq
            refine ⟨rd, rfl, attrs_eq, ?_, ?_, after_nil⟩
            · rw [front]
              intro reply chunk
              obtain ⟨_, _, rfl⟩ := List.mem_map.mp chunk
              rfl
            · have total := (whole left rfl).2
              rw [List.nil_append] at total
              rw [front, entries_eq, ← total, List.flatMap_map]
              congr 1
              exact List.flatMap_id
          · rename_i large
            rw [if_neg large, List.append_nil] at member
            exact absurd member (absent chunks)

/-- A directory that fills one chunk, and no other. -/
theorem readdirStream_full {entries left : List ε} (full : entries.length = readdirChunkSize)
    (short : left.length < readdirChunkSize) (present : ∀ n, accepts n = true)
    (fits : size (.last left selfAttrs) ≤ maxFrameBytes) :
    readdirStream size accepts selfAttrs (.ok ((entries ++ left).map some)) =
      [.chunk entries, .last left selfAttrs] := by
  have size_eq : readdirChunkSize = 2000 := rfl
  have read : readable ((entries ++ left).map some) = entries ++ left := by simp [readable]
  have room : ([] : List ε).length < readdirChunkSize := Nat.zero_lt_succ _
  have ends := (readdirLoop_ends accepts (entries ++ left) [] 0 room).mpr fun n _ => present _
  obtain ⟨sizes, whole⟩ := readdirLoop_batches accepts (entries ++ left) [] 0 room
  simp only [readdirStream, read]
  match loop : readdirLoop accepts [] 0 (entries ++ left) with
  | (chunks, none) =>
      rw [loop] at ends
      exact absurd rfl ends
  | (chunks, some batch) =>
      rw [loop] at sizes whole
      obtain ⟨small, parts⟩ := whole batch rfl
      have parts : chunks.flatten ++ batch = entries ++ left := parts
      have count : chunks.flatten.length = readdirChunkSize * chunks.length := flatten_length sizes
      have lengths := congrArg List.length parts
      rw [List.length_append, List.length_append, count, full, size_eq] at lengths
      rw [size_eq] at small short
      have one : chunks.length = 1 := by omega
      obtain ⟨chunk, rfl⟩ := List.length_eq_one_iff.mp one
      have sized : chunk.length = entries.length := by
        rw [full]
        exact sizes chunk (List.mem_singleton_self _)
      have apart : chunk ++ batch = entries ++ left := by simpa using parts
      obtain ⟨first, last⟩ := List.append_inj apart sized
      rw [first, last]
      simp [sendReply, fits]

end

end EmacsRelay.Server
