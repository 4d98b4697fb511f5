import LineScript.Disk
import Mathlib.Data.List.Basic
import Mathlib.Data.List.Nodup
import Mathlib.Data.List.Perm.Basic

/-!
What a search through folders finds. Main statement: whatever the order of the entries is, it finds
each wanted file below the folder once and nothing else.
-/

namespace LineScript.Disk

variable {name key : Text} {path : List Text} {content c : Content} {l l' inside rest : Listing}

/-- A name that an entry of a folder can have. -/
structure IsEntryName (name : Text) : Prop where
  ne_nil : name ≠ []
  no_slash : '/' ∉ name
  ne_dot : name ≠ ['.']
  ne_dots : name ≠ ['.', '.']

namespace Listing

/-- The names of the entries in the order in which they are listed. -/
def entryNames : Listing → List Text
  | nil => []
  | file name _ rest => name :: rest.entryNames
  | folder name _ rest => name :: rest.entryNames

/-- Every entry has a name of its own in its folder, at any depth. -/
inductive IsTree : Listing → Prop
  | nil : IsTree nil
  | file {name : Text} {content : Content} {rest : Listing} : IsEntryName name →
      name ∉ rest.entryNames → IsTree rest → IsTree (file name content rest)
  | folder {name : Text} {inside rest : Listing} : IsEntryName name → name ∉ rest.entryNames →
      IsTree inside → IsTree rest → IsTree (folder name inside rest)

/-- The names lead from the folder to a file in it or, one folder after the other, below it. -/
inductive Leads : Listing → List Text → Content → Prop
  | here {l : Listing} {name : Text} {content : Content} :
      l.entry name = .file content → Leads l [name] content
  | deeper {l inside : Listing} {name : Text} {path : List Text} {content : Content} :
      l.entry name = .folder inside → Leads inside path content → Leads l (name :: path) content

mutual

/-- Each name stands for the same entry in both folders, in whatever order they are listed. -/
inductive SameTree : Listing → Listing → Prop
  | mk {l l' : Listing} : (∀ name, SameEntry (l.entry name) (l'.entry name)) → SameTree l l'

/-- Nothing in both places, the same file, or folders with the same entries. -/
inductive SameEntry : Found → Found → Prop
  | nothing : SameEntry .nothing .nothing
  | file {content : Content} : SameEntry (.file content) (.file content)
  | folder {l l' : Listing} : SameTree l l' → SameEntry (.folder l) (.folder l')

end

/-- The files at any depth, each with the names that lead to it. -/
def files : Listing → List (List Text × Content)
  | nil => []
  | file name content rest => ([name], content) :: rest.files
  | folder name inside rest =>
    (inside.files.map fun found => (name :: found.1, found.2)) ++ rest.files

theorem entry_file (name key : Text) (content : Content) (rest : Listing) :
    (file name content rest).entry key
      = if name = key then .file content else rest.entry key := rfl

theorem entry_folder (name key : Text) (inside rest : Listing) :
    (folder name inside rest).entry key
      = if name = key then .folder inside else rest.entry key := rfl

theorem entry_eq_nothing (h : name ∉ l.entryNames) : l.entry name = .nothing := by
  induction l with
  | nil => rfl
  | file key content rest ih =>
    obtain ⟨hne, hrest⟩ := not_or.1 (mt List.mem_cons.2 h)
    rw [entry_file, if_neg fun he => hne he.symm, ih hrest]
  | folder key inside rest _ ih =>
    obtain ⟨hne, hrest⟩ := not_or.1 (mt List.mem_cons.2 h)
    rw [entry_folder, if_neg fun he => hne he.symm, ih hrest]

theorem IsTree.isEntryName (h : l.IsTree) (hname : name ∈ l.entryNames) : IsEntryName name := by
  induction h with
  | nil => cases hname
  | file hkey _ _ ih =>
    rcases List.mem_cons.1 hname with rfl | hname
    · exact hkey
    · exact ih hname
  | folder hkey _ _ _ _ ih =>
    rcases List.mem_cons.1 hname with rfl | hname
    · exact hkey
    · exact ih hname

theorem IsTree.of_entry (h : l.IsTree) (hentry : l.entry name = .folder inside) :
    inside.IsTree := by
  induction h with
  | nil => cases hentry
  | file _ _ _ ih =>
    rw [entry_file] at hentry
    split at hentry
    · cases hentry
    · exact ih hentry
  | folder _ _ hinside _ _ ih =>
    rw [entry_folder] at hentry
    split at hentry
    · cases hentry
      exact hinside
    · exact ih hentry

theorem not_leads_nil : ¬ Leads l [] c := by
  intro h
  cases h

theorem leads_cons_iff :
    Leads l (name :: path) c ↔ (path = [] ∧ l.entry name = .file c) ∨
      ∃ inside, l.entry name = .folder inside ∧ Leads inside path c := by
  constructor
  · intro h
    cases h with
    | here h => exact .inl ⟨rfl, h⟩
    | deeper h hpath => exact .inr ⟨_, h, hpath⟩
  · rintro (⟨rfl, h⟩ | ⟨inside, h, hpath⟩)
    · exact .here h
    · exact .deeper h hpath

/-- A path begins with the name of an entry. -/
theorem Leads.head_mem (h : Leads l (name :: path) c) : name ∈ l.entryNames := by
  by_contra hno
  rw [leads_cons_iff, entry_eq_nothing hno] at h
  rcases h with ⟨_, hfile⟩ | ⟨_, hfolder, _⟩
  · cases hfile
  · cases hfolder

/-- All names on a path are such as entries can have. -/
theorem Leads.isEntryName (h : Leads l path c) (htree : l.IsTree) :
    ∀ name ∈ path, IsEntryName name := by
  induction h with
  | here h =>
    intro name hname
    obtain rfl := List.mem_singleton.1 hname
    exact htree.isEntryName (Leads.here h).head_mem
  | deeper h hpath ih =>
    intro name hname
    rcases List.mem_cons.1 hname with rfl | hname
    · exact htree.isEntryName (Leads.deeper h hpath).head_mem
    · exact ih (htree.of_entry h) name hname

theorem leads_file_iff (hname : name ∉ rest.entryNames) :
    Leads (file name content rest) path c ↔
      (path = [name] ∧ c = content) ∨ Leads rest path c := by
  cases path with
  | nil => simp [not_leads_nil]
  | cons key path =>
    by_cases hkey : name = key
    · subst hkey
      have hno : ¬ Leads rest (name :: path) c := fun h => hname h.head_mem
      rw [leads_cons_iff, entry_file, if_pos rfl]
      simp [hno, eq_comm]
    · have hne : ¬ key = name := fun he => hkey he.symm
      rw [leads_cons_iff, leads_cons_iff, entry_file, if_neg hkey]
      simp [hne]

theorem leads_folder_iff (hname : name ∉ rest.entryNames) :
    Leads (folder name inside rest) path c ↔
      (∃ deeper, path = name :: deeper ∧ Leads inside deeper c) ∨ Leads rest path c := by
  cases path with
  | nil => simp [not_leads_nil]
  | cons key path =>
    by_cases hkey : name = key
    · subst hkey
      have hno : ¬ Leads rest (name :: path) c := fun h => hname h.head_mem
      rw [leads_cons_iff, entry_folder, if_pos rfl]
      simp [hno]
    · have hne : ¬ key = name := fun he => hkey he.symm
      rw [leads_cons_iff, leads_cons_iff, entry_folder, if_neg hkey]
      simp [hne]

theorem mem_files_iff (h : l.IsTree) : (path, c) ∈ l.files ↔ Leads l path c := by
  induction h generalizing path with
  | nil =>
    constructor
    · intro hmem
      cases hmem
    · intro hleads
      cases hleads with
      | here h | deeper h => cases h
  | file _ hname _ ih =>
    rw [leads_file_iff hname, ← ih, files, List.mem_cons, Prod.mk.injEq]
  | folder _ hname _ _ ihInside ih =>
    rw [leads_folder_iff hname, ← ih, files, List.mem_append, List.mem_map]
    simp only [← ihInside, Prod.exists, Prod.mk.injEq]
    refine or_congr_left ⟨?_, ?_⟩
    · rintro ⟨deeper, _, hmem, rfl, rfl⟩
      exact ⟨deeper, rfl, hmem⟩
    · rintro ⟨deeper, rfl, hmem⟩
      exact ⟨deeper, c, hmem, rfl, rfl⟩

/-- No path is listed twice. -/
theorem nodup_files (h : l.IsTree) : (l.files.map Prod.fst).Nodup := by
  induction h with
  | nil => exact List.nodup_nil
  | @file name content rest _ hname hrest ih =>
    refine List.nodup_cons.2 ⟨?_, ih⟩
    intro hmem
    obtain ⟨⟨path, c⟩, hmem, rfl⟩ := List.mem_map.1 hmem
    exact hname ((mem_files_iff hrest).1 hmem).head_mem
  | @folder name inside rest _ hname _ hrest ihInside ih =>
    rw [files, List.map_append, List.map_map]
    refine List.nodup_append.2 ⟨?_, ih, ?_⟩
    · have hcons : (Prod.fst ∘ fun found : List Text × Content => (name :: found.1, found.2))
          = (name :: ·) ∘ Prod.fst := rfl
      rw [hcons, ← List.map_map]
      exact ihInside.map (List.cons_injective)
    · rintro _ hpath _ hother rfl
      obtain ⟨found, _, rfl⟩ := List.mem_map.1 hpath
      obtain ⟨⟨path, c⟩, hmem, rfl⟩ := List.mem_map.1 hother
      exact hname ((mem_files_iff hrest).1 hmem).head_mem

/-- In the same tree the same names lead to the same files. -/
theorem Leads.sameTree (h : Leads l path c) (hsame : SameTree l l') : Leads l' path c := by
  induction h generalizing l' with
  | @here l name content h =>
    obtain ⟨hentries⟩ := hsame
    have hentry := hentries name
    rw [h] at hentry
    generalize he : l'.entry name = entry at hentry
    cases hentry
    exact .here he
  | @deeper l inside name path content h _ ih =>
    obtain ⟨hentries⟩ := hsame
    have hentry := hentries name
    rw [h] at hentry
    generalize he : l'.entry name = entry at hentry
    cases hentry with
    | folder hinside => exact .deeper he (ih hinside)

mutual

theorem SameTree.symm {l l' : Listing} : SameTree l l' → SameTree l' l
  | .mk hentries => .mk fun name => (hentries name).symm

theorem SameEntry.symm {f f' : Found} : SameEntry f f' → SameEntry f' f
  | .nothing => .nothing
  | .file => .file
  | .folder h => .folder h.symm

end

/-- Following the names on a path leads to its file. -/
theorem follow_of_leads (h : Leads l path c) (htree : l.IsTree) (around : List Listing) :
    follow around l path = .file c := by
  have hnames := h.isEntryName htree
  induction h generalizing around with
  | @here l name content h =>
    obtain ⟨⟨hnil, _, hdot, hdots⟩, _⟩ := List.forall_mem_cons.1 hnames
    simp [follow, hnil, hdot, hdots, h]
  | @deeper l inside name path content h hpath ih =>
    obtain ⟨⟨hnil, _, hdot, hdots⟩, hrest⟩ := List.forall_mem_cons.1 hnames
    simp [follow, hnil, hdot, hdots, h, ih (htree.of_entry h) (l :: around) hrest]

/-- What follows a path to a folder is followed from that folder. -/
theorem follow_append {around : List Listing} {parts : List Text}
    (h : follow around l parts = .folder l') :
    ∃ around', ∀ more, follow around l (parts ++ more) = follow around' l' more := by
  induction parts generalizing around l with
  | nil =>
    cases h
    exact ⟨around, fun more => rfl⟩
  | cons part parts ih =>
    simp only [List.cons_append, follow] at h ⊢
    by_cases hstay : part = [] ∨ part = ['.']
    · simp only [if_pos hstay] at h ⊢
      exact ih h
    · simp only [if_neg hstay] at h ⊢
      by_cases hout : part = ['.', '.']
      · simp only [if_pos hout] at h ⊢
        cases around with
        | nil => cases h
        | cons outer around => exact ih h
      · simp only [if_neg hout] at h ⊢
        cases hentry : l.entry part with
        | nothing =>
          rw [hentry] at h
          cases h
        | folder inside =>
          rw [hentry] at h
          exact ih h
        | file content =>
          rw [hentry] at h
          dsimp only at h
          split at h <;> cases h

/-- An empty part in the middle of a path changes nothing. -/
theorem follow_skip {around : List Listing} {more : List Text} (parts : List Text)
    (hmore : more ≠ []) :
    follow around l (parts ++ [] :: more) = follow around l (parts ++ more) := by
  induction parts generalizing around l with
  | nil => simp [follow]
  | cons part parts ih =>
    have hskipped : parts ++ [] :: more ≠ [] := by simp
    have hkept : parts ++ more ≠ [] := by simp [hmore]
    simp only [List.cons_append, follow, ih, if_neg hskipped, if_neg hkept]

end Listing

theorem splitOn_append_slash (s t : Text) :
    (s ++ '/' :: t).splitOn '/' = s.splitOn '/' ++ t.splitOn '/' := by
  simp only [List.splitOn_eq_splitOnP]
  exact List.splitOnP_append_cons s t (by simp)

/-- The parts of a longer path are those of the path, less an empty one at its end, and the names
that follow. -/
theorem exists_parts (root : Text) :
    ∃ parts, (root.splitOn '/' = parts ∨ root.splitOn '/' = parts ++ [[]]) ∧
      ∀ names, names ≠ [] → (∀ name ∈ names, '/' ∉ name) →
        (extend root names).splitOn '/' = parts ++ names := by
  by_cases hslash : root.getLast? = some '/'
  · obtain ⟨base, rfl⟩ := List.getLast?_eq_some_iff.1 hslash
    refine ⟨base.splitOn '/', .inr ?_, ?_⟩
    · rw [splitOn_append_slash, List.splitOn_nil]
    · intro names hne hnames
      rw [extend, if_pos hslash, List.append_assoc, List.singleton_append, splitOn_append_slash,
        Text.join, List.splitOn_intercalate '/' hnames hne]
  · refine ⟨root.splitOn '/', .inl rfl, ?_⟩
    intro names hne hnames
    rw [extend, if_neg hslash, List.append_assoc, List.singleton_append, splitOn_append_slash,
      Text.join, List.splitOn_intercalate '/' hnames hne]

/-- The names in a path. -/
def components (path : Text) : List Text := (path.splitOn '/').filter (· ≠ [])

theorem components_extend {root : Text} {names : List Text} (hne : names ≠ [])
    (hnames : ∀ name ∈ names, IsEntryName name) :
    components (extend root names) = components root ++ names := by
  obtain ⟨parts, hroot, hparts⟩ := exists_parts root
  have hkept : names.filter (· ≠ []) = names := by
    refine List.filter_eq_self.2 ?_
    intro name hname
    simpa using (hnames name hname).ne_nil
  have hlead : components root = parts.filter (· ≠ []) := by
    rcases hroot with hroot | hroot <;> simp [components, hroot]
  rw [hlead, components, hparts names hne fun name hname => (hnames name hname).no_slash,
    List.filter_append, hkept]

/-- A path made longer by the names that lead to a file leads to that file. -/
theorem find_extend {here : Listing} {root : Text} (hroot : here.find root = .folder l)
    (htree : l.IsTree) (h : l.Leads path c) : here.find (extend root path) = .file c := by
  unfold Listing.find at hroot
  split at hroot
  · cases hroot
  · rename_i hrelative
    obtain ⟨hempty, hslash⟩ := not_or.1 hrelative
    have hrelative' : ¬ (extend root path = [] ∨ (extend root path).head? = some '/') := by
      obtain ⟨first, more, rfl⟩ := List.exists_cons_of_ne_nil hempty
      unfold extend
      split <;> simpa using hslash
    have hpath : path ≠ [] := by
      rintro rfl
      exact Listing.not_leads_nil h
    have hfollow := Listing.follow_of_leads h htree
    obtain ⟨around, hmore⟩ := Listing.follow_append hroot
    obtain ⟨parts, hparts, hextend⟩ := exists_parts root
    have hslashes : ∀ name ∈ path, '/' ∉ name :=
      fun name hname => (h.isEntryName htree name hname).no_slash
    rw [Listing.find, if_neg hrelative', hextend path hpath hslashes, ← hfollow around, ← hmore]
    rcases hparts with hparts | hparts
    · rw [hparts]
    · rw [hparts, List.append_assoc, List.singleton_append, Listing.follow_skip parts hpath]

namespace Search

variable {wanted : List Text → Bool} {s : Search}

/-- The wanted files below a folder, with the names that lead to the folder before theirs. -/
def wantedBelow (wanted : List Text → Bool) (folder : List Text × Listing) :
    List (List Text × Content) :=
  (folder.2.files.map fun found => (folder.1 ++ found.1, found.2)).filter (wanted ·.1)

/-- What was found, and what is wanted in the folders still to be visited. -/
def due (wanted : List Text → Bool) (s : Search) : List (List Text × Content) :=
  s.found ++ s.pending.flatMap (wantedBelow wanted)

theorem wantedBelow_folder (names : List Text) (name : Text) (inside rest : Listing) :
    wantedBelow wanted (names, .folder name inside rest)
      = wantedBelow wanted (names ++ [name], inside) ++ wantedBelow wanted (names, rest) := by
  simp [wantedBelow, Listing.files, Function.comp_def]

theorem wantedBelow_file (names : List Text) (name : Text) (content : Content) (rest : Listing) :
    wantedBelow wanted (names, .file name content rest)
      = (if wanted (names ++ [name]) then [(names ++ [name], content)] else []) ++
        wantedBelow wanted (names, rest) := by
  simp only [wantedBelow, Listing.files, List.map_cons, List.filter_cons]
  split <;> rfl

/-- A visit keeps what is due and adds what is wanted in the folder. -/
theorem due_visit (names : List Text) (listing : Listing) (s : Search) :
    ((visit wanted names listing s).due wanted).Perm
      (wantedBelow wanted (names, listing) ++ s.due wanted) := by
  induction listing generalizing s with
  | nil => exact .rfl
  | file name content rest ih =>
    rw [wantedBelow_file, visit]
    split
    · exact (ih _).trans List.perm_middle
    · exact ih s
  | folder name inside rest _ ih =>
    rw [wantedBelow_folder, visit, List.append_assoc]
    -- The folder that is put off is due behind the files found so far.
    have hput : (due wanted { s with pending := (names ++ [name], inside) :: s.pending }).Perm
        (wantedBelow wanted (names ++ [name], inside) ++ s.due wanted) :=
      List.perm_append_comm_assoc _ _ _
    exact (ih _).trans ((hput.append_left _).trans (List.perm_append_comm_assoc _ _ _))

/-- A search finds what is due. -/
theorem run_perm (wanted : List Text → Bool) (s : Search) : (run wanted s).Perm (s.due wanted) := by
  induction s using run.induct wanted with
  | case1 found =>
    rw [run]
    simp [due]
  | case2 names listing rest found ih =>
    rw [run]
    exact ih.trans ((due_visit names listing _).trans (List.perm_append_comm_assoc _ _ _))

/-- From a folder on, a search finds the wanted files below it, each once. -/
theorem run_folder_perm (wanted : List Text → Bool) (listing : Listing) :
    (run wanted { pending := [([], listing)] }).Perm (listing.files.filter (wanted ·.1)) := by
  have hdue := run_perm wanted { pending := [([], listing)] }
  simpa [due, wantedBelow] using hdue

end Search

end LineScript.Disk
