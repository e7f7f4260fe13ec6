import EmacsRelay.Lib.Lexical
import EmacsRelay.Prefetch.Invalidate
import EmacsRelay.Server.Watched

set_option autoImplicit false

/- Names below the remote home: the client's normalisation of them in `lisp/relay-file-handler.el`
and the server's `expand_home` lead to the same path, or do not. -/
namespace EmacsRelay

open Lexical Server RelayPrefetch

abbrev Component := List Char

/-- What stands between the slashes. -/
def components (path : List Char) : List Component := path.splitOn '/'

/-- What a component does in a path. -/
def component (c : Component) : Move Component :=
  if c = [] ∨ c = ['.'] then .stay
  else if c = ['.', '.'] then .up
  else .into c

def path (chars : List Char) : List (Move Component) := (components chars).map component

/-- The place that a path denotes, by its text, for a process that works in the place CWD. -/
def denotes (cwd : List Component) (name : String) : List Component :=
  resolve (if name.toList.head? = some '/' then [] else cwd) (path name.toList)

/-- What `expand-file-name` makes of one component, on the components kept so far, the last one
first. A `..` that finds none is kept. -/
def expandComponent (kept : List Component) (c : Component) : List Component :=
  if c = [] ∨ c = ['.'] then kept
  else if c = ['.', '.'] ∧ kept ≠ [] then kept.tail
  else c :: kept

/-- `expand-file-name`, for a name that begins with a single slash. Versions of Emacs differ in
whether a last `.` or `..` leaves a slash. -/
def expandFileName (leavesSlash : Bool) (name : String) : String :=
  let parts := components (name.toList.drop 1)
  let before := parts.dropLast.foldl expandComponent []
  let last := parts.getLastD []
  let kept := expandComponent before last
  let slash := last = [] ∨
    leavesSlash = true ∧ (last = ['.'] ∨ last = ['.', '.'] ∧ before ≠ [])
  if kept = [] then "/"
  else .ofList ('/' :: ['/'].intercalate (kept.reverse ++ if slash then [[]] else []))

def remoteHomeMarker : String := "/__relay_remote_home__"

/-- `relay--normalize-remote-home-localname`. -/
def normalizeRemoteHomeLocalname (leavesSlash : Bool) (localname : String) : String :=
  if localname = "~" then "~"
  else
    let expanded := expandFileName leavesSlash
      (remoteHomeMarker ++ .ofList (localname.toList.drop 1))
    if expanded = remoteHomeMarker then "~"
    else if stringPrefixP (remoteHomeMarker ++ "/") expanded then
      "~" ++ .ofList (expanded.toList.drop remoteHomeMarker.length)
    else localname

example : normalizeRemoteHomeLocalname false "~/a/../b//./c/" = "~/b/c/" := by decide +kernel

example : normalizeRemoteHomeLocalname true "~/.." = "~/.." := by decide +kernel

/-- `~`, or `~/` and what follows. -/
def homeName : Option String → String
  | none => "~"
  | some rest => "~/" ++ rest

/-- What follows the home directory. -/
def homeRest : Option String → List Char
  | none => []
  | some rest => rest.toList

/-- The path HOME/REST. -/
def homePath (cwd : List Component) (home : String) (rest : Option String) : List Component :=
  resolve (denotes cwd home) (path (homeRest rest))

/-- The server takes the name, as it is and as the client normalises it, for the path HOME/REST. -/
def HomeAgrees (leavesSlash : Bool) (cwd : List Component) (home : String) (rest : Option String) :
    Prop :=
  denotes cwd (expandHome home (normalizeRemoteHomeLocalname leavesSlash (homeName rest))) =
      homePath cwd home rest ∧
    denotes cwd (expandHome home (homeName rest)) = homePath cwd home rest

/-- The last component of the marker. -/
def markerComponent : Component := "__relay_remote_home__".toList

/-- REST begins with a slash, and does not climb to the root. -/
def Displaced (above : List Component) (rest : Option String) : Prop :=
  (homeRest rest).head? = some '/' ∧
    (climbing (path (homeRest rest))).up < above.length

/-- REST climbs above the home directory, by a number of levels that is odd, and goes from there
into a directory with the name of the marker. -/
def Mistaken (rest : Option String) : Prop :=
  (climbing (path (homeRest rest))).up % 2 = 1 ∧
    (climbing (path (homeRest rest))).down.getLast? = some markerComponent

section Names

variable {chars : List Char} {c : Component}

theorem slash_not_mem (chars : List Char) : ∀ c ∈ components chars, '/' ∉ c := by
  unfold components
  induction chars with
  | nil => simp
  | cons first chars ih =>
      rw [List.splitOn_cons_eq_if_modifyHead]
      by_cases slash : first = '/'
      · simp only [slash, beq_self_eq_true, if_true, List.mem_cons]
        rintro c (rfl | there)
        · exact List.not_mem_nil
        · exact ih c there
      · have other : (first == '/') = false := by simpa using slash
        simp only [other, Bool.false_eq_true, if_false]
        cases parts : chars.splitOn '/' with
        | nil => simp
        | cons part parts' =>
            rw [parts] at ih
            simp only [List.modifyHead_cons, List.mem_cons]
            rintro c (rfl | there)
            · simp only [List.mem_cons, not_or]
              exact ⟨Ne.symm slash, ih part List.mem_cons_self⟩
            · exact ih c (List.mem_cons_of_mem part there)

/-- A component that stands for itself. -/
structure Plain (c : Component) : Prop where
  slash : '/' ∉ c
  itself : component c = .into c

theorem component_into {name : Component} (into : component c = .into name) : c = name := by
  unfold component at into
  split at into
  · cases into
  · split at into
    · cases into
    · cases into
      rfl

theorem plain_of_down (there : c ∈ (climbing (path chars)).down) : Plain c := by
  obtain ⟨original, known, into⟩ := List.mem_map.mp (mem_down there)
  have same := component_into into
  subst same
  exact ⟨slash_not_mem chars original known, into⟩

theorem Plain.nonempty (plain : Plain c) : c ≠ [] := by
  rintro rfl
  have never := plain.itself
  simp [component] at never

theorem components_join {parts : List Component} (nonempty : parts ≠ [])
    (free : ∀ c ∈ parts, '/' ∉ c) : components (['/'].intercalate parts) = parts :=
  List.splitOn_intercalate '/' free nonempty

/-- Names lead down from any place. -/
theorem resolve_plain (place : List Component) {names : List Component}
    (plain : ∀ c ∈ names, Plain c) :
    resolve place (names.map component) = names.reverse ++ place := by
  induction names generalizing place with
  | nil => rfl
  | cons name names ih =>
      have first := (plain name List.mem_cons_self).itself
      have rest := ih (name :: place) fun c there => plain c (List.mem_cons_of_mem name there)
      rw [List.map_cons, first, List.reverse_cons, List.append_assoc]
      exact rest

end Names

section Joining

variable {cwd : List Component} {home rest : String}

theorem path_slash (start rest : List Char) :
    path (start ++ '/' :: rest) = path start ++ path rest := by
  unfold path components
  rw [List.splitOn_append_cons_self, List.map_append]

theorem path_nil : path [] = [.stay] := by decide

/-- A base that ends in a slash, and what is appended. -/
theorem denotes_append {start : List Char} (base : home.toList = start ++ ['/']) :
    denotes cwd (home ++ rest) = resolve (denotes cwd home) (path rest.toList) := by
  have front : (start ++ '/' :: rest.toList).head? = (start ++ ['/']).head? := by
    cases start <;> rfl
  have joined : (home ++ rest).toList = start ++ '/' :: rest.toList := by
    rw [String.toList_append, base, List.append_assoc]
    rfl
  unfold denotes
  rw [joined, base, front, path_slash, path_slash, path_nil, ← resolve_append]
  simp only [List.append_assoc]
  rw [resolve_append, resolve_append _ (path start), resolve_append]
  rfl

/-- What does not begin with a slash is looked up from the base. -/
theorem denotes_pushPath (relative : rest.toList.head? ≠ some '/') :
    denotes cwd (pushPath home rest) = resolve (denotes cwd home) (path rest.toList) := by
  unfold pushPath
  split
  · rename_i more _ starts
    rw [starts] at relative
    exact absurd rfl relative
  · rename_i empty _
    have base : home.toList = [] := List.getLast?_eq_none_iff.mp empty
    unfold denotes
    rw [if_neg relative, base, path_nil]
    rfl
  · rename_i last ends _
    obtain ⟨start, whole⟩ := List.getLast?_eq_some_iff.mp ends
    split
    · rename_i slash
      subst slash
      exact denotes_append whole
    · have base : (home ++ "/").toList = home.toList ++ ['/'] := by
        rw [String.toList_append]
        rfl
      rw [denotes_append base]
      have front : (home.toList ++ ['/']).head? = home.toList.head? := by
        rw [whole]
        cases start <;> rfl
      unfold denotes
      rw [base, front, path_slash, path_nil, resolve_append]
      rfl

/-- What begins with one replaces the base. -/
theorem denotes_pushPath_absolute (absolute : rest.toList.head? = some '/') :
    denotes cwd (pushPath home rest) = resolve [] (path rest.toList) := by
  have pushed : pushPath home rest = rest := by
    unfold pushPath
    cases chars : rest.toList with
    | nil =>
        rw [chars] at absolute
        cases absolute
    | cons first more =>
        rw [chars] at absolute
        cases absolute
        rfl
  unfold denotes
  rw [pushed, if_pos absolute]

end Joining

section Expansion

/-- What is left of the marker after climbing: it, or nothing, or a `..` in turn. -/
def markerLeft (up : Nat) : List Component :=
  if up = 0 then [markerComponent] else if up % 2 = 1 then [] else [['.', '.']]

theorem expandComponent_go (climb : Climb Component) (c : Component) :
    expandComponent (climb.down ++ markerLeft climb.up) c =
      (climb.go (component c)).down ++ markerLeft (climb.go (component c)).up := by
  unfold expandComponent component
  by_cases still : c = [] ∨ c = ['.']
  · rw [if_pos still, if_pos still]
    rfl
  · rw [if_neg still, if_neg still]
    by_cases dots : c = ['.', '.']
    · rw [if_pos dots]
      cases down : climb.down with
      | cons name rest => simp [Climb.go, down, dots]
      | nil =>
          simp only [Climb.go, down, dots, List.nil_append]
          unfold markerLeft
          by_cases below : climb.up = 0
          · simp [below]
          · by_cases odd : climb.up % 2 = 1
            · have even : (climb.up + 1) % 2 ≠ 1 := by omega
              simp [below, odd, even]
            · have turned : (climb.up + 1) % 2 = 1 := by omega
              simp [below, odd, turned]
    · simp [dots, Climb.go]

theorem expand_marker (rest : List Char) :
    (components rest).foldl expandComponent [markerComponent] =
      (climbing (path rest)).down ++ markerLeft (climbing (path rest)).up := by
  have along : ∀ (parts : List Component) (climb : Climb Component),
      parts.foldl expandComponent (climb.down ++ markerLeft climb.up) =
        ((parts.map component).foldl Climb.go climb).down ++
          markerLeft ((parts.map component).foldl Climb.go climb).up := by
    intro parts
    induction parts with
    | nil => exact fun _ => rfl
    | cons part parts ih =>
        intro climb
        rw [List.foldl_cons, expandComponent_go, ih]
        rfl
  exact along (components rest) {}

theorem foldl_last {α β : Type} (f : β → α → β) (start : β) (other : α) {list : List α}
    (nonempty : list ≠ []) :
    f (list.dropLast.foldl f start) (list.getLastD other) = list.foldl f start := by
  rcases list.eq_nil_or_concat with empty | ⟨front, last, rfl⟩
  · exact absurd empty nonempty
  · simp

/-- A name of these components, which may end in a slash. -/
def rendered (kept tail : List Component) : String :=
  if kept = [] then "/" else .ofList ('/' :: ['/'].intercalate (kept.reverse ++ tail))

theorem expandFileName_rendered (leavesSlash : Bool) (rest : String) :
    ∃ tail, (tail = [] ∨ tail = [[]]) ∧
      expandFileName leavesSlash (remoteHomeMarker ++ .ofList (("~/" ++ rest).toList.drop 1)) =
        rendered ((climbing (path rest.toList)).down ++
          markerLeft (climbing (path rest.toList)).up) tail := by
  have chars : ((remoteHomeMarker ++ .ofList (("~/" ++ rest).toList.drop 1)).toList).drop 1 =
      markerComponent ++ '/' :: rest.toList := by
    simp only [String.toList_append, String.toList_ofList]
    rfl
  have parts : components (markerComponent ++ '/' :: rest.toList) =
      markerComponent :: components rest.toList :=
    List.splitOn_append_cons_self_of_not_mem (by decide) rest.toList
  have nonempty : components rest.toList ≠ [] := List.splitOn_ne_nil '/' rest.toList
  have whole : expandComponent
      ((markerComponent :: components rest.toList).dropLast.foldl expandComponent [])
      ((markerComponent :: components rest.toList).getLastD []) =
        (components rest.toList).foldl expandComponent [markerComponent] :=
    foldl_last expandComponent [] [] (List.cons_ne_nil _ _)
  unfold expandFileName
  rw [chars, parts]
  dsimp only
  rw [whole, expand_marker]
  refine ⟨_, ?_, rfl⟩
  split
  · exact .inr rfl
  · exact .inl rfl

theorem markerLeft_free (up : Nat) : ∀ c ∈ markerLeft up, '/' ∉ c := by
  unfold markerLeft
  split
  · decide
  · split
    · exact nofun
    · decide

end Expansion

section Normalising

variable {leavesSlash : Bool} {rest : String}

theorem normalize_of_marker {init tail : List Component}
    (expanded : expandFileName leavesSlash
      (remoteHomeMarker ++ .ofList (("~/" ++ rest).toList.drop 1)) =
        rendered (init ++ [markerComponent]) tail) :
    normalizeRemoteHomeLocalname leavesSlash ("~/" ++ rest) =
      if init.reverse ++ tail = [] then "~"
      else "~/" ++ .ofList (['/'].intercalate (init.reverse ++ tail)) := by
  have plainName : ¬ "~/" ++ rest = "~" := by
    intro same
    have chars := congrArg String.toList same
    rw [String.toList_append] at chars
    cases chars
  have name : rendered (init ++ [markerComponent]) tail =
      .ofList ('/' :: ['/'].intercalate (markerComponent :: (init.reverse ++ tail))) := by
    unfold rendered
    rw [if_neg (by simp), List.reverse_append]
    rfl
  unfold normalizeRemoteHomeLocalname
  rw [if_neg plainName, expanded, name]
  dsimp only
  cases parts : init.reverse ++ tail with
  | nil =>
      rw [if_pos rfl]
      exact if_pos (by decide)
  | cons first more =>
      have longer : String.ofList ('/' :: ['/'].intercalate (markerComponent :: first :: more)) =
          remoteHomeMarker ++ "/" ++ .ofList (['/'].intercalate (first :: more)) := by
        apply String.toList_inj.mp
        simp only [String.toList_append, String.toList_ofList, List.intercalate_cons_cons]
        rfl
      have differs : ¬ remoteHomeMarker ++ "/" ++ .ofList (['/'].intercalate (first :: more)) =
          remoteHomeMarker := by
        intro same
        have lengths := congrArg (fun name => name.toList.length) same
        simp only [String.toList_append, List.length_append] at lengths
        have one : "/".toList.length = 1 := rfl
        omega
      have starts : stringPrefixP (remoteHomeMarker ++ "/")
          (remoteHomeMarker ++ "/" ++ .ofList (['/'].intercalate (first :: more))) = true :=
        (stringPrefixP_iff _ _).mpr ⟨_, rfl⟩
      rw [longer, if_neg differs, if_pos starts, if_neg (List.cons_ne_nil _ _)]
      apply String.toList_inj.mp
      simp only [String.toList_append, String.toList_ofList, List.append_assoc]
      rw [← String.length_toList, List.drop_left]
      rfl

theorem normalize_of_other {kept tail : List Component} (free : ∀ c ∈ kept, '/' ∉ c)
    (end_tail : tail = [] ∨ tail = [[]]) (other : kept.getLast? ≠ some markerComponent)
    (expanded : expandFileName leavesSlash
      (remoteHomeMarker ++ .ofList (("~/" ++ rest).toList.drop 1)) = rendered kept tail) :
    normalizeRemoteHomeLocalname leavesSlash ("~/" ++ rest) = "~/" ++ rest := by
  have plainName : ¬ "~/" ++ rest = "~" := by
    intro same
    have chars := congrArg String.toList same
    rw [String.toList_append] at chars
    cases chars
  have first : ∀ chars, (rendered kept tail).toList = '/' :: chars → chars ≠ [] →
      (components chars).head? = kept.getLast? := by
    intro chars same full
    unfold rendered at same
    split at same
    · cases same
      exact absurd rfl full
    · rename_i nonempty
      rw [String.toList_ofList] at same
      have parts : kept.reverse ++ tail ≠ [] := by simp [nonempty]
      have slashless : ∀ c ∈ kept.reverse ++ tail, '/' ∉ c := by
        intro c there
        rcases List.mem_append.mp there with known | last
        · exact free c (List.mem_reverse.mp known)
        · rcases end_tail with none_left | one
          · rw [none_left] at last
            cases last
          · rw [one] at last
            rw [List.mem_singleton.mp last]
            exact List.not_mem_nil
      rw [← (List.cons.inj same).2, components_join parts slashless, List.head?_append,
        List.head?_reverse]
      cases last : kept.getLast? with
      | none => exact absurd (List.getLast?_eq_none_iff.mp last) nonempty
      | some c => rfl
  have noMarker : rendered kept tail ≠ remoteHomeMarker := by
    intro same
    apply other
    rw [← first markerComponent (by rw [same]; rfl) (by decide)]
    decide
  have noPrefix : stringPrefixP (remoteHomeMarker ++ "/") (rendered kept tail) ≠ true := by
    intro starts
    obtain ⟨more, same⟩ := (stringPrefixP_iff _ _).mp starts
    apply other
    rw [← first (markerComponent ++ '/' :: more.toList) (by rw [same]; simp; rfl) (by simp)]
    have parts : components (markerComponent ++ '/' :: more.toList) =
        markerComponent :: components more.toList :=
      List.splitOn_append_cons_self_of_not_mem (by decide) more.toList
    rw [parts]
    rfl
  unfold normalizeRemoteHomeLocalname
  rw [if_neg plainName, expanded]
  dsimp only
  rw [if_neg noMarker, if_neg noPrefix]

theorem expandHome_below (home rest : String) :
    expandHome home ("~/" ++ rest) = pushPath home rest := by
  have chars : ("~/" ++ rest).toList = '~' :: '/' :: rest.toList := by
    rw [String.toList_append]
    rfl
  unfold expandHome
  rw [chars]
  exact congrArg (pushPath home) (String.ofList_toList)

/-- Names that stand for themselves do not begin with a slash. -/
theorem relative_of_plain {names tail : List Component} (plain : ∀ c ∈ names, Plain c)
    (end_tail : tail = [] ∨ tail = [[]]) :
    (['/'].intercalate (names ++ tail)).head? ≠ some '/' := by
  cases names with
  | nil =>
      rcases end_tail with rfl | rfl
      · exact nofun
      · exact nofun
  | cons name names =>
      have first := plain name List.mem_cons_self
      cases name with
      | nil => exact absurd rfl first.nonempty
      | cons char name =>
          have other : char ≠ '/' := fun slash => first.slash (slash ▸ List.mem_cons_self)
          cases more : names ++ tail with
          | nil => simpa [more] using other
          | cons next rest => simpa [more] using other

/-- Names that are kept below the marker are looked up from the home directory. -/
theorem denotes_of_marker {cwd init tail : List Component} {home : String}
    (plain : ∀ c ∈ init, Plain c) (end_tail : tail = [] ∨ tail = [[]]) :
    denotes cwd (expandHome home (if init.reverse ++ tail = [] then "~"
      else "~/" ++ .ofList (['/'].intercalate (init.reverse ++ tail)))) =
        init ++ denotes cwd home := by
  split
  · rename_i empty
    have none_left : init = [] := by
      simpa using (List.append_eq_nil_iff.mp empty).1
    rw [none_left]
    rfl
  · rename_i nonempty
    have slashless : ∀ c ∈ init.reverse ++ tail, '/' ∉ c := by
      intro c there
      rcases List.mem_append.mp there with known | last
      · exact (plain c (List.mem_reverse.mp known)).slash
      · rcases end_tail with none_left | one
        · rw [none_left] at last
          cases last
        · rw [one] at last
          rw [List.mem_singleton.mp last]
          exact List.not_mem_nil
    have pushed : expandHome home ("~/" ++ .ofList (['/'].intercalate (init.reverse ++ tail))) =
        pushPath home (.ofList (['/'].intercalate (init.reverse ++ tail))) :=
      expandHome_below home _
    have relative : (String.ofList (['/'].intercalate (init.reverse ++ tail))).toList.head? ≠
        some '/' := by
      rw [String.toList_ofList]
      exact relative_of_plain (fun c there => plain c (List.mem_reverse.mp there)) end_tail
    rw [pushed, denotes_pushPath relative, String.toList_ofList, path,
      components_join nonempty slashless, List.map_append, resolve_append,
      resolve_plain _ fun c there => plain c (List.mem_reverse.mp there), List.reverse_reverse]
    rcases end_tail with none_left | one
    · rw [none_left]
      rfl
    · rw [one]
      rfl

/-- The name as it is. -/
theorem denotes_homeName (cwd : List Component) (home : String) (rest : Option String) :
    denotes cwd (expandHome home (homeName rest)) = homePath cwd home rest ↔
      ¬ Displaced (denotes cwd home) rest := by
  cases rest with
  | none =>
      have stays : homePath cwd home none = denotes cwd home := rfl
      rw [stays]
      exact iff_of_true rfl fun displaced => nomatch displaced.1
  | some rest =>
      unfold homePath Displaced homeName homeRest
      rw [expandHome_below]
      by_cases absolute : rest.toList.head? = some '/'
      · rw [denotes_pushPath_absolute absolute, resolve_eq, resolve_eq]
        unfold Climb.apply
        rw [List.append_cancel_left_eq, List.drop_nil, eq_comm, List.drop_eq_nil_iff]
        simp only [absolute, true_and, Nat.not_lt]
      · rw [denotes_pushPath absolute]
        simp only [absolute, false_and, not_false_eq_true]

/-- The name as the client normalises it, where the name as it is leads to the right path. -/
theorem denotes_normalized {cwd : List Component} {home : String}
    (kept : ¬ Displaced (denotes cwd home) (some rest)) :
    denotes cwd (expandHome home (normalizeRemoteHomeLocalname leavesSlash ("~/" ++ rest))) =
        homePath cwd home (some rest) ↔
      (Mistaken (some rest) → denotes cwd home = markerComponent ::
        (denotes cwd home).drop (climbing (path rest.toList)).up) := by
  obtain ⟨tail, end_tail, expanded⟩ := expandFileName_rendered leavesSlash rest
  have right : homePath cwd home (some rest) = (climbing (path rest.toList)).down ++
      (denotes cwd home).drop (climbing (path rest.toList)).up := resolve_eq _ _
  have plain : ∀ c ∈ (climbing (path rest.toList)).down, Plain c := fun c => plain_of_down
  by_cases below : (climbing (path rest.toList)).up = 0
  · have straight : ¬ Mistaken (some rest) := by
      rintro ⟨odd, _⟩
      change (climbing (path rest.toList)).up % 2 = 1 at odd
      omega
    have left : markerLeft (climbing (path rest.toList)).up = [markerComponent] := if_pos below
    rw [left] at expanded
    rw [normalize_of_marker expanded, denotes_of_marker plain end_tail, right, below]
    exact ⟨fun _ mistaken => absurd mistaken straight, fun _ => rfl⟩
  · by_cases mistaken : Mistaken (some rest)
    · obtain ⟨init, down⟩ := List.getLast?_eq_some_iff.mp mistaken.2
      change (climbing (path rest.toList)).down = init ++ [markerComponent] at down
      have left : markerLeft (climbing (path rest.toList)).up = [] :=
        (if_neg below).trans (if_pos mistaken.1)
      rw [left, List.append_nil, down] at expanded
      have known : ∀ c ∈ init, Plain c := by
        intro c there
        refine plain c ?_
        rw [down]
        exact List.mem_append_left _ there
      rw [normalize_of_marker expanded, denotes_of_marker known end_tail, right, down,
        List.append_assoc, List.append_cancel_left_eq]
      exact ⟨fun same _ => same, fun same => same mistaken⟩
    · have other : ((climbing (path rest.toList)).down ++
          markerLeft (climbing (path rest.toList)).up).getLast? ≠ some markerComponent := by
        unfold markerLeft
        rw [if_neg below]
        split
        · rename_i odd
          rw [List.append_nil]
          exact fun last => mistaken ⟨odd, last⟩
        · rw [List.getLast?_append]
          have dots : markerComponent ≠ ['.', '.'] := by decide
          exact fun last => dots (Option.some.inj last).symm
      have free : ∀ c ∈ (climbing (path rest.toList)).down ++
          markerLeft (climbing (path rest.toList)).up, '/' ∉ c := by
        intro c there
        rcases List.mem_append.mp there with name | left
        · exact (plain c name).slash
        · exact markerLeft_free _ c left
      rw [normalize_of_other free end_tail other expanded]
      have same : denotes cwd (expandHome home ("~/" ++ rest)) = homePath cwd home (some rest) :=
        (denotes_homeName cwd home (some rest)).mpr kept
      exact ⟨fun _ taken => absurd taken mistaken, fun _ => same⟩

end Normalising

/-- Both names of a home path are taken for it if and only if what follows the home directory does
not begin with a slash below the root, and does not come back into the marker's name. -/
theorem homeAgrees_iff (leavesSlash : Bool) (cwd : List Component) (home : String)
    (rest : Option String) :
    HomeAgrees leavesSlash cwd home rest ↔ ¬ Displaced (denotes cwd home) rest ∧
      (Mistaken rest → denotes cwd home = markerComponent ::
        (denotes cwd home).drop (climbing (path (homeRest rest))).up) := by
  unfold HomeAgrees
  rw [and_comm, denotes_homeName]
  refine and_congr_right fun kept => ?_
  cases rest with
  | none =>
      have stays : normalizeRemoteHomeLocalname leavesSlash (homeName none) = homeName none :=
        if_pos rfl
      rw [stays]
      exact iff_of_true rfl fun mistaken => nomatch mistaken.2
  | some rest => exact denotes_normalized kept

/-- A second slash after the tilde leads to the root, and a way through the marker's name, from
beside the home directory, to a place below it. -/
theorem home_paths_differ :
    ¬ HomeAgrees false [] "/home/u" (some "/etc") ∧
      ¬ HomeAgrees false [] "/home/u" (some "../__relay_remote_home__/x") := by
  unfold HomeAgrees
  decide +kernel

end EmacsRelay
