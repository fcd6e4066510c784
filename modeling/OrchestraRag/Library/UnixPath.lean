import Mathlib.Data.List.DropRight

/-!
# Unix paths as texts

The components of a path are what lies between its separators, without the empty ones and `.`.
The file name of a path is its last component unless that is `..`, and the extension is what
follows the last dot of the file name, unless the name begins with that dot.  It need not be what
follows the last dot of the path, as separators may come after the file name
(`extension_eq_afterLast_iff`).
-/

namespace UnixPath

/-! ### The last separator -/

section AfterLast

variable {α : Type*} [DecidableEq α] {sep : α} {as : List α}

/-- What follows the last separator of a list; all of it when there is none. -/
def afterLast (sep : α) (as : List α) : List α :=
  as.rtakeWhile (· != sep)

theorem notMem_afterLast (sep : α) (as : List α) :
  sep ∉ afterLast sep as
  := by
  intro h
  have hne := List.mem_rtakeWhile_imp h
  simp at hne

theorem afterLast_of_notMem (h : sep ∉ as) :
  afterLast sep as = as
  := by
  rw [afterLast, List.rtakeWhile_eq_self_iff]
  intro a ha
  apply bne_iff_ne.mpr
  rintro rfl
  apply h ha

theorem afterLast_append_cons (pre : List α) {post : List α} (h : sep ∉ post) :
  afterLast sep (pre ++ sep :: post) = post
  := by
  have hpost : ∀ a ∈ post.reverse, (a != sep) = true := by
    intro a ha
    apply bne_iff_ne.mpr
    rintro rfl
    apply h (List.mem_reverse.mp ha)
  rw [afterLast, List.rtakeWhile, List.reverse_append, List.reverse_cons, List.append_assoc,
    List.takeWhile_append_of_pos hpost, List.singleton_append,
    List.takeWhile_cons_of_neg (by simp), List.append_nil, List.reverse_reverse]

/-- A list with a separator ends with its last one and what follows it. -/
theorem cons_afterLast_suffix (h : sep ∈ as) :
  sep :: afterLast sep as <:+ as
  := by
  obtain ⟨post, pre, hsplit, hpost⟩ := List.eq_append_cons_of_mem (List.mem_reverse.mpr h)
  have has : as = pre.reverse ++ sep :: post.reverse := by
    rw [← List.reverse_reverse as, hsplit, List.reverse_append, List.reverse_cons,
      List.append_assoc, List.singleton_append]
  rw [has, afterLast_append_cons _ (mt List.mem_reverse.mp hpost)]
  apply List.suffix_append

theorem afterLast_eq_of_suffix {post : List α} (h : sep :: post <:+ as) (hpost : sep ∉ post) :
  afterLast sep as = post
  := by
  obtain ⟨pre, rfl⟩ := h
  apply afterLast_append_cons pre hpost

theorem mem_of_mem_splitOn {part : List α} {a : α} (hpart : part ∈ as.splitOn sep)
    (ha : a ∈ part) :
  a ∈ as
  := by
  induction as generalizing part with
  | nil =>
      rw [List.splitOn_nil] at hpart
      obtain rfl := List.mem_singleton.mp hpart
      apply ha
  | cons b bs ih =>
      rw [List.splitOn_cons_eq_if_modifyHead] at hpart
      split at hpart
      · rcases List.mem_cons.mp hpart with rfl | hpart
        · cases ha
        · apply List.mem_cons_of_mem _ (ih hpart ha)
      · cases hparts : bs.splitOn sep with
        | nil => exact absurd hparts (List.splitOn_ne_nil sep bs)
        | cons first parts =>
            rw [hparts] at hpart ih
            rcases List.mem_cons.mp hpart with rfl | hpart
            · rcases List.mem_cons.mp ha with rfl | ha
              · apply List.mem_cons_self
              · apply List.mem_cons_of_mem _ (ih List.mem_cons_self ha)
            · apply List.mem_cons_of_mem _ (ih (List.mem_cons_of_mem _ hpart) ha)

end AfterLast

/-! ### File names and extensions -/

/-- The components of a path; it may begin at the root or in the current directory. -/
def components (path : List Char) : List (List Char) :=
  (path.splitOn '/').filter (fun name => name ≠ [] ∧ name ≠ ['.'])

/-- The final component of a path, unless it leads to the parent directory. -/
def fileName (path : List Char) : Option (List Char) :=
  (components path).getLast?.filter (· ≠ ['.', '.'])

/-- What follows the last dot of the file name, where the name has a dot that it does not begin
with. -/
def extension (path : List Char) : Option (List Char) :=
  (fileName path).bind (fun name => if '.' ∈ name.tail then some (afterLast '.' name) else none)

variable {path name ext : List Char}

/-- The extension follows a stem and a dot. -/
theorem extension_eq_some_iff :
  extension path = some ext
    ↔ ∃ stem, fileName path = some (stem ++ '.' :: ext) ∧ stem ≠ [] ∧ '.' ∉ ext
  := by
  rw [extension, Option.bind_eq_some_iff]
  constructor
  · rintro ⟨name, hname, hext⟩
    split at hext
    case isFalse => cases hext
    case isTrue hdot =>
      cases hext
      cases name with
      | nil => cases hdot
      | cons c name =>
          rw [List.tail_cons] at hdot
          obtain ⟨stem, hstem⟩ := cons_afterLast_suffix hdot
          have hsame : afterLast '.' (c :: name) = afterLast '.' name := by
            apply afterLast_eq_of_suffix _ (notMem_afterLast '.' name)
            use c :: stem
            rw [List.cons_append, hstem]
          use c :: stem
          rw [hsame, List.cons_append, hstem]
          exact ⟨hname, List.cons_ne_nil c stem, notMem_afterLast '.' name⟩
  · rintro ⟨stem, hname, hstem, hext⟩
    use stem ++ '.' :: ext, hname
    have hdot : '.' ∈ (stem ++ '.' :: ext).tail := by
      rw [List.tail_append_of_ne_nil hstem]
      apply List.mem_append_cons_self
    rw [if_pos hdot, afterLast_append_cons stem hext]

/-- A file name is text of the path. -/
theorem mem_of_mem_fileName (hname : fileName path = some name) {c : Char} (hc : c ∈ name) :
  c ∈ path
  := by
  rw [fileName, Option.filter_eq_some_iff] at hname
  have hmem := List.mem_of_getLast? hname.1
  apply mem_of_mem_splitOn (List.mem_filter.mp hmem).1 hc

/-- The extension is what follows the last dot of the path exactly when the path ends with it. -/
theorem extension_eq_afterLast_iff :
  extension path = some (afterLast '.' path)
    ↔ ∃ ext, extension path = some ext ∧ '.' :: ext <:+ path
  := by
  constructor
  · intro h
    use afterLast '.' path, h
    obtain ⟨stem, hname, -⟩ := extension_eq_some_iff.mp h
    apply cons_afterLast_suffix (mem_of_mem_fileName hname List.mem_append_cons_self)
  · rintro ⟨ext, hext, hsuffix⟩
    obtain ⟨stem, -, -, hdot⟩ := extension_eq_some_iff.mp hext
    rw [afterLast_eq_of_suffix hsuffix hdot, hext]

/-- The name of a file in a directory. -/
theorem fileName_append (dir : List Char) (hslash : '/' ∉ name) (hempty : name ≠ [])
    (hdot : name ≠ ['.']) (hparent : name ≠ ['.', '.']) :
  fileName (dir ++ '/' :: name) = some name
  := by
  have hcomponents : components (dir ++ '/' :: name) = components dir ++ [name] := by
    rw [components, List.splitOn_append_cons_self, List.splitOn_eq_singleton hslash,
      List.filter_append, List.filter_singleton, decide_eq_true ⟨hempty, hdot⟩]
    rfl
  rw [fileName, hcomponents, List.getLast?_append, List.getLast?_singleton, Option.some_or,
    Option.filter_some, if_pos (decide_eq_true hparent)]

/-- A file whose only dot begins its name has no extension. -/
theorem extension_dotFile (dir : List Char) (hslash : '/' ∉ name) (hempty : name ≠ [])
    (hdot : '.' ∉ name) :
  extension (dir ++ '/' :: '.' :: name) = none
  := by
  have hname : fileName (dir ++ '/' :: '.' :: name) = some ('.' :: name) := by
    apply fileName_append
    · rw [List.mem_cons]
      rintro (h | h)
      · revert h
        decide
      · apply hslash h
    · apply List.cons_ne_nil
    · intro h
      apply hempty (List.cons.inj h).2
    · intro h
      rw [(List.cons.inj h).2] at hdot
      apply hdot List.mem_cons_self
  rw [extension, hname, Option.bind_some, List.tail_cons, if_neg hdot]

end UnixPath
