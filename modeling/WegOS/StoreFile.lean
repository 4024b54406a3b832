import WegOS.CoveringWrite

/-! Writing a control block back to its directory. -/

namespace WegOS

open LittleEndian CArray BlockChain

/-! ## The tree of files -/

def node (disk : Disk) : FileT → List Nat → Option FileT
  | f, [] => some f
  | f, k :: rest =>
      if f.fileType = FileType.directory.code ∧ k < entryCount f then node disk (entry disk f k) rest
      else none

/-- Directories are well formed, and no sector belongs to two files, or twice to one. -/
structure Tree (disk : Disk) : Prop where
  directory : ∀ p d, node disk (rootFcb disk) p = some d →
    d.fileType = FileType.directory.code → IsDirectory disk d
  nodup : ∀ p f, node disk (rootFcb disk) p = some f → (sectorsOf disk f).Nodup
  disjoint : ∀ p q f g, p ≠ q → node disk (rootFcb disk) p = some f → node disk (rootFcb disk) q = some g →
    (sectorsOf disk f).Disjoint (sectorsOf disk g)
  apart : ∀ p f, node disk (rootFcb disk) p = some f → sectorWithRootFcb ∉ sectorsOf disk f

theorem lookup_eq_some {disk : Disk} {dir : FileT} {c : List UInt8} {i : Nat} :
    lookup disk dir c = some i ↔ (entry disk dir i).name = some c ∧ i < entryCount dir ∧
      ∀ j < i, (entry disk dir j).name ≠ some c := by
  simp [lookup, List.find?_range_eq_some]

/-- A path through directories leads to a place of the tree as deep as it is long. -/
theorem node_of_resolve {disk : Disk} {components : List (List UInt8)} {dir f : FileT}
    (along : Along disk dir components fun d => d.fileType = FileType.directory.code)
    (resolved : resolve disk dir components = some f) :
    ∃ p, p.length = components.length ∧ node disk dir p = some f := by
  induction components generalizing dir with
  | nil => exact ⟨[], rfl, resolved⟩
  | cons c rest ih =>
      obtain ⟨i, found, resolved⟩ := Option.bind_eq_some_iff.mp resolved
      obtain ⟨p, depth, place⟩ := ih (along.tail found) resolved
      refine ⟨i :: p, by rw [List.length_cons, depth, List.length_cons], ?_⟩
      rw [node, if_pos ⟨along.head, (lookup_eq_some.mp found).2.1⟩]
      exact place

/-! ## What is left alone -/

section Frame

variable {disk disk' : Disk}

theorem sectorsOf_links (links : ∀ s, nextSector (disk' s) = nextSector (disk s)) (f : FileT) :
    sectorsOf disk' f = sectorsOf disk f := chainFrom_congr fun s _ => links s

theorem fits_of_lt_entryCount {dir : FileT} {i : Nat} (inside : i < entryCount dir) :
    fileTSize * i + fileTSize ≤ dir.size := by
  calc
    _ = fileTSize * (i + 1) := (Nat.mul_succ fileTSize i).symm
    _ ≤ fileTSize * entryCount dir := Nat.mul_le_mul_left fileTSize inside
    _ ≤ dir.size := Nat.mul_div_le _ _

theorem IsDirectory.byte_inside {dir : FileT} (directory : IsDirectory disk dir) {i : Nat}
    (inside : i ≤ dir.size) : i / 508 < (sectorsOf disk dir).length :=
  Nat.lt_of_le_of_lt (Nat.div_le_div_right inside) directory.readable.room

section Apart

variable {dir : FileT} (same : ∀ s ∈ sectorsOf disk dir, disk' s = disk s)
include same

theorem sectorsOf_congr : sectorsOf disk' dir = sectorsOf disk dir :=
  chainFrom_congr fun s member => by rw [same s member]

theorem entry_congr (directory : IsDirectory disk dir) {i : Nat} (inside : i < entryCount dir) :
    entry disk' dir i = entry disk dir i := by
  have fits := fits_of_lt_entryCount inside
  apply fileAt_congr
  intro k small
  rw [sectorsOf_congr same]
  exact content_congr (directory.byte_inside (by omega)) fun s member _ _ => by rw [same s member]

theorem lookup_congr (directory : IsDirectory disk dir) (c : List UInt8) :
    lookup disk' dir c = lookup disk dir c := by
  apply List.find?_congr
  intro i member
  rw [entry_congr same directory (List.mem_range.mp member)]

theorem IsDirectory.congr (directory : IsDirectory disk dir) : IsDirectory disk' dir where
  positive := directory.positive
  room := directory.room
  small := directory.small
  named i inside := by
    rw [entry_congr same directory inside]
    exact directory.named i inside

end Apart

/-- A path leads to the same control block as long as the directories on it are left alone. -/
theorem resolve_congr {dir : FileT} {components : List (List UInt8)}
    (directories : Along disk dir components (IsDirectory disk))
    (same : Along disk dir components fun d => ∀ s ∈ sectorsOf disk d, disk' s = disk s) :
    resolve disk' dir components = resolve disk dir components := by
  induction components generalizing dir with
  | nil => rfl
  | cons c rest ih =>
      rw [resolve, resolve, lookup_congr same.head directories.head]
      cases found : lookup disk dir c with
      | none => rfl
      | some i =>
          rw [Option.bind_some, Option.bind_some,
            entry_congr same.head directories.head (lookup_eq_some.mp found).2.1]
          exact ih (directories.tail found) (same.tail found)

theorem along_congr {dir : FileT} {components : List (List UInt8)} {holds holds' : FileT → Prop}
    (directories : Along disk dir components (IsDirectory disk))
    (same : Along disk dir components fun d => ∀ s ∈ sectorsOf disk d, disk' s = disk s)
    (kept : ∀ d, IsDirectory disk d → (∀ s ∈ sectorsOf disk d, disk' s = disk s) → holds d → holds' d)
    (along : Along disk dir components holds) : Along disk' dir components holds' := by
  intro init c rest split inner reached
  subst split
  rw [resolve_congr directories.left same.left] at reached
  exact kept inner (directories init c rest rfl inner reached) (same init c rest rfl inner reached)
    (along init c rest rfl inner reached)

end Frame

/-! ## The entry that is written -/

section Entry

variable {disk disk' : Disk} {dir f : FileT} {i : Nat}

theorem entry_overwrites (directory : IsDirectory disk dir) 
    (written : Overwrites blockFormat (sectorsOf disk dir) disk disk' (fileTSize * i) fileTSize f.bytes)
    {k : Nat} (inside : k < entryCount dir) :
    entry disk' dir k = if k = i then f else entry disk dir k := by
  have fits := fits_of_lt_entryCount inside
  have bytes : ∀ j < fileTSize, byteOf disk' (sectorsOf disk' dir) (fileTSize * k + j) =
      if k = i then f.bytes j else byteOf disk (sectorsOf disk dir) (fileTSize * k + j) := by
    intro j small
    rw [sectorsOf_links written.links]
    have content := written.content (fileTSize * k + j) (directory.byte_inside (by omega))
    by_cases here : k = i
    · subst here
      rw [if_pos rfl]
      rw [if_pos ⟨Nat.le_add_right _ _, Nat.add_lt_add_left small _⟩, Nat.add_sub_cancel_left] at content
      exact content
    · rw [if_neg here]
      rw [if_neg (by simp only [fileTSize] at small ⊢; omega)] at content
      exact content
  by_cases here : k = i
  · rw [if_pos here]
    exact fileAt_eq fun j small => by rw [bytes j small, if_pos here]
  · rw [if_neg here]
    exact fileAt_congr fun j small => by rw [bytes j small, if_neg here]

/-- Under the old name, the lookups find the same entries. -/
theorem lookup_overwrites (directory : IsDirectory disk dir)
    (written : Overwrites blockFormat (sectorsOf disk dir) disk disk' (fileTSize * i) fileTSize f.bytes)
    (name : f.name = (entry disk dir i).name) (c : List UInt8) : lookup disk' dir c = lookup disk dir c := by
  apply List.find?_congr
  intro k member
  rw [entry_overwrites directory written (List.mem_range.mp member)]
  split_ifs with here
  · rw [here, name]
  · rfl

theorem IsDirectory.overwrites (directory : IsDirectory disk dir)
    (written : Overwrites blockFormat (sectorsOf disk dir) disk disk' (fileTSize * i) fileTSize f.bytes)
    (name : f.name = (entry disk dir i).name) : IsDirectory disk' dir where
  positive := directory.positive
  room := directory.room
  small := directory.small
  named k inside := by
    rw [entry_overwrites directory written inside]
    split_ifs with here
    · rw [name, ← here]
      exact directory.named k inside
    · exact directory.named k inside

end Entry

/-! ## The directory of a file -/

/-- A directory, with the path that leads to it: the directories on the way are well formed
and share no sector with it. -/
structure Home (disk : Disk) (init : List (List UInt8)) (dir : FileT) : Prop where
  path : Path init
  along : Along disk (rootFcb disk) init (IsDirectory disk)
  reached : resolve disk (rootFcb disk) init = some dir
  directory : IsDirectory disk dir
  nodup : (sectorsOf disk dir).Nodup
  clear : Along disk (rootFcb disk) init fun d => (sectorsOf disk d).Disjoint (sectorsOf disk dir)
  apart : sectorWithRootFcb ∉ sectorsOf disk dir

section Home

variable {disk disk' : Disk} {init : List (List UInt8)} {dir f : FileT} {i : Nat} {c : List UInt8}

theorem rootFcb_congr (same : disk' sectorWithRootFcb = disk sectorWithRootFcb) :
    rootFcb disk' = rootFcb disk := by rw [rootFcb, same, rootFcb]

theorem Home.congr (home : Home disk init dir) (root : disk' sectorWithRootFcb = disk sectorWithRootFcb)
    (same : Along disk (rootFcb disk) init fun d => ∀ s ∈ sectorsOf disk d, disk' s = disk s)
    (sectors : sectorsOf disk' dir = sectorsOf disk dir) (directory : IsDirectory disk' dir) :
    Home disk' init dir where
  path := home.path
  along := by
    rw [rootFcb_congr root]
    exact along_congr home.along same (fun d directory same _ => directory.congr same) home.along
  reached := by rw [rootFcb_congr root, resolve_congr home.along same, home.reached]
  directory := directory
  nodup := by rw [sectors]; exact home.nodup
  clear := by
    rw [rootFcb_congr root, sectors]
    exact along_congr home.along same
      (fun d _ same clear => by rw [sectorsOf_congr same]; exact clear) home.clear
  apart := by rw [sectors]; exact home.apart

theorem Home.overwrites (home : Home disk init dir)
    (written : Overwrites blockFormat (sectorsOf disk dir) disk disk' (fileTSize * i) fileTSize f.bytes)
    (name : f.name = (entry disk dir i).name) : Home disk' init dir :=
  home.congr (written.frame _ home.apart)
    (fun first c rest split inner reached s member =>
      written.frame s (home.clear first c rest split inner reached member))
    (sectorsOf_links written.links dir) (home.directory.overwrites written name)

theorem Home.below (home : Home disk init dir) : Along disk (rootFcb disk) (init ++ [c]) (IsDirectory disk) :=
  along_concat home.along fun d reached => by
    rw [home.reached] at reached
    exact Option.some.inj reached ▸ home.directory

theorem Home.load (home : Home disk init dir) (path : Path (init ++ [c])) (found : lookup disk dir c = some i)
    (locals : Locals) (old : FileCached) :
    ∃ cached, loadFileCached disk locals (joinPath (init ++ [c])) old = some (.success, cached) ∧
      cached.file = entry disk dir i ∧ Loaded disk (init ++ [c]) cached := by
  apply loadFileCached_resolved locals path home.below
  rw [resolve_concat, home.reached, Option.bind_some, found, Option.map_some]

theorem Home.store (home : Home disk init dir) (locals : Locals) (cached : FileCached)
    (hasParent : cached.pathState.hasParent = true) (name : cached.pathState.parentDirName = joinPath init)
    (inside : cached.pathState.indexInParentDir < entryCount dir) :
    ∃ disk', storeFileCached disk locals cached = some disk' ∧
      Overwrites blockFormat (sectorsOf disk dir) disk disk'
        (fileTSize * cached.pathState.indexInParentDir) fileTSize cached.file.bytes := by
  obtain ⟨parentDir, result, rfl, -⟩ :=
    loadFileCached_resolved locals home.path home.along home.reached locals.parentDir
  have fits := fits_of_lt_entryCount inside
  let seek := fileTSize * cached.pathState.indexInParentDir
  have readable := home.directory.readable
  have here := seekSector_chain readable.linked readable.first
    (home.directory.byte_inside (i := seek) (by omega))
  refine ⟨_, ?_, coveringWrite_spec home.nodup readable.linked
    (sysWseek disk parentDir.file parentDir.ioState seek) cached.file.bytes fileTSize here ?_ ?_⟩
  · simp only [storeFileCached, name, result, Option.bind_eq_bind, Option.bind_some, if_pos, hasParent]
    rfl
  · exact home.directory.byte_inside fits
  · apply linksSurvive_short
    simp only [nthBlock_eq, fileTSize]
    omega

end Home

/-! ## A file in its tree -/

theorem Tree.along {disk : Disk} (tree : Tree disk) {components : List (List UInt8)}
    (directories : Along disk (rootFcb disk) components fun d => d.fileType = FileType.directory.code) :
    Along disk (rootFcb disk) components (IsDirectory disk) := by
  intro first d rest split inner before
  obtain ⟨q, -, there⟩ := node_of_resolve (split ▸ directories).left before
  exact tree.directory q inner there (directories first d rest split inner before)

theorem Tree.home {disk : Disk} (tree : Tree disk) {init : List (List UInt8)} {dir : FileT} (path : Path init)
    (along : Along disk (rootFcb disk) init fun d => d.fileType = FileType.directory.code)
    (reached : resolve disk (rootFcb disk) init = some dir)
    (directory : dir.fileType = FileType.directory.code) : Home disk init dir := by
  obtain ⟨p, depth, place⟩ := node_of_resolve along reached
  exact
    { path := path
      along := tree.along along
      reached := reached
      directory := tree.directory p dir place directory
      nodup := tree.nodup p dir place
      clear := by
        intro first c rest split inner before
        obtain ⟨q, length, there⟩ := node_of_resolve (split ▸ along).left before
        apply tree.disjoint q p inner dir _ there place
        rintro rfl
        rw [depth, split, List.length_append, List.length_cons] at length
        omega
      apart := tree.apart p dir place }

theorem loaded_of_success {disk : Disk} {locals : Locals} {components : List (List UInt8)}
    (path : Path components) (along : Along disk (rootFcb disk) components (IsDirectory disk))
    {old cached : FileCached}
    (success : loadFileCached disk locals (joinPath components) old = some (.success, cached)) :
    Loaded disk components cached := by
  cases resolved : resolve disk (rootFcb disk) components with
  | some f =>
      obtain ⟨cached', result, -, loaded⟩ := loadFileCached_resolved locals path along resolved old
      cases result.symm.trans success
      exact loaded
  | none =>
      obtain ⟨cached', result⟩ := loadFileCached_unresolved locals path along resolved old
      have outcome := congrArg Prod.fst (Option.some.inj (result.symm.trans success))
      split_ifs at outcome

/-- `store_file_cached` replaces the control block of its file, and nothing else: no other entry
of a directory, no link, no sector outside the parent directory. -/
theorem storeFileCached_spec {disk : Disk} (tree : Tree disk) (locals : Locals)
    (init : List (List UInt8)) (c : List UInt8) (path : Path (init ++ [c]))
    (directories : Along disk (rootFcb disk) (init ++ [c]) fun d => d.fileType = FileType.directory.code)
    {old cached : FileCached}
    (load : loadFileCached disk locals (joinPath (init ++ [c])) old = some (.success, cached))
    (f : FileT) (sameName : f.fileName = cached.file.fileName) :
    ∃ disk' p parent, storeFileCached disk locals { cached with file := f } = some disk' ∧
      resolve disk (rootFcb disk) init = some parent ∧ node disk (rootFcb disk) p = some parent ∧
      (∀ locals old, ∃ reloaded,
        loadFileCached disk' locals (joinPath (init ++ [c])) old = some (.success, reloaded) ∧
          reloaded.file = f) ∧
      (∀ q d k, node disk (rootFcb disk) q = some d → d.fileType = FileType.directory.code →
        k < entryCount d → (q, k) ≠ (p, cached.pathState.indexInParentDir) →
          entry disk' d k = entry disk d k) ∧
      (∀ s, nextSector (disk' s) = nextSector (disk s)) ∧
      ∀ s, s ∉ sectorsOf disk parent → disk' s = disk s := by
  have loaded := loaded_of_success path (tree.along directories) load
  obtain ⟨name, parent, reached, found⟩ := loaded.parent init c rfl
  obtain ⟨p, -, place⟩ := node_of_resolve directories.left reached
  have home := tree.home path.init directories.left reached (directories init c [] rfl parent reached)
  have here := loaded.file
  rw [resolve_concat, reached, Option.bind_some, found, Option.map_some, Option.some.injEq] at here
  obtain ⟨-, inside, -⟩ := lookup_eq_some.mp found
  obtain ⟨disk', run, written⟩ :=
    home.store locals { cached with file := f } (by simp [loaded.hasParent]) name inside
  have same : f.name = (entry disk parent cached.pathState.indexInParentDir).name := by
    rw [FileT.name, FileT.name, sameName, here]
  refine ⟨disk', p, parent, run, reached, place, ?_, ?_, written.links, written.frame⟩
  · intro locals old
    have again := (lookup_overwrites home.directory written same c).trans found
    obtain ⟨reloaded, result, file, -⟩ := (home.overwrites written same).load path again locals old
    refine ⟨reloaded, result, ?_⟩
    rw [file, entry_overwrites home.directory written inside, if_pos rfl]
  · intro q d k there directory within other
    by_cases parentDir : q = p
    · subst parentDir
      obtain rfl := Option.some.inj (place.symm.trans there)
      rw [entry_overwrites home.directory written within, if_neg]
      rintro rfl
      exact other rfl
    · have apart := tree.disjoint q p d parent parentDir there place
      exact entry_congr (fun s member => written.frame s (apart member))
        (tree.directory q d there directory) within

/-! ## The places of the sample tree -/

theorem node_cons {disk : Disk} {f g : FileT} {k : Nat} {rest : List Nat}
    (place : node disk f (k :: rest) = some g) :
    f.fileType = FileType.directory.code ∧ k < entryCount f ∧ node disk (entry disk f k) rest = some g := by
  rw [node] at place
  split_ifs at place with inner
  exact ⟨inner.1, inner.2, place⟩

theorem node_leaf {disk : Disk} {f g : FileT} {p : List Nat} (leaf : f.fileType ≠ FileType.directory.code)
    (place : node disk f p = some g) : p = [] := by
  cases p with
  | nil => rfl
  | cons k rest => exact absurd (node_cons place).1 leaf

theorem tree_of_table {disk : Disk} (table : List (List Nat × List UInt32))
    (complete : ∀ p f, node disk (rootFcb disk) p = some f → p ∈ table.map Prod.fst)
    (sectors : ∀ row ∈ table, (node disk (rootFcb disk) row.1).map (sectorsOf disk) = some row.2)
    (directories : ∀ row ∈ table, (node disk (rootFcb disk) row.1).all fun f =>
      decide (f.fileType = FileType.directory.code →
        0 ≤ f.fileSize ∧ nthBlock f.size < f.sectorCount.toNat ∧ f.size ≤ filesSize ∧
          ∀ i < entryCount f, (entry disk f i).name.isSome))
    (check : ∀ row ∈ table, row.2.Nodup ∧ sectorWithRootFcb ∉ row.2 ∧
      ∀ other ∈ table, row.1 ≠ other.1 → row.2.all (fun s => !other.2.contains s) = true) : Tree disk := by
  have found : ∀ p f, node disk (rootFcb disk) p = some f → (p, sectorsOf disk f) ∈ table := by
    intro p f place
    obtain ⟨row, member, rfl⟩ := List.mem_map.mp (complete p f place)
    have own := sectors row member
    rw [place, Option.map_some, Option.some.injEq] at own
    rw [own]
    exact member
  exact
    { directory := by
        intro p d place directory
        have checked := directories _ (found p d place)
        rw [place, Option.all_some, decide_eq_true_eq] at checked
        exact isDirectory_of_check (checked directory)
      nodup := fun p f place => (check _ (found p f place)).1
      disjoint := by
        intro p q f g other place place' s member
        have free := (check _ (found p f place)).2.2 _ (found q g place') other
        simpa using List.all_eq_true.mp free s member
      apart := fun p f place => (check _ (found p f place)).2.1 }

def sampleTable : List (List Nat × List UInt32) :=
  [([], [1025]), ([0], [1026, 1027]), ([1], [1028]), ([1, 0], [1029, 1030, 1031])]

theorem sampleTree_places (p : List Nat) (f : FileT)
    (place : node sampleTree (rootFcb sampleTree) p = some f) : p ∈ sampleTable.map Prod.fst := by
  cases p with
  | nil => decide
  | cons k rest =>
      obtain ⟨-, inside, place⟩ := node_cons place
      have count : entryCount (rootFcb sampleTree) = 2 := by decide +kernel
      rw [count] at inside
      interval_cases k
      · have leaf : rest = [] := node_leaf (by decide +kernel) place
        rw [leaf]
        decide
      · cases rest with
        | nil => decide
        | cons l rest =>
            obtain ⟨-, inside, place⟩ := node_cons place
            have count : entryCount (entry sampleTree (rootFcb sampleTree) 1) = 1 := by decide +kernel
            rw [count] at inside
            interval_cases l
            have leaf : rest = [] := node_leaf (by decide +kernel) place
            rw [leaf]
            decide

theorem sampleTree_sectors : ∀ row ∈ sampleTable,
    (node sampleTree (rootFcb sampleTree) row.1).map (sectorsOf sampleTree) = some row.2 := by
  decide +kernel

theorem sampleTree_tree : Tree sampleTree :=
  tree_of_table sampleTable sampleTree_places sampleTree_sectors (by decide +kernel) (by decide +kernel)

theorem sampleTree_directories : Along sampleTree (rootFcb sampleTree) [[100], [98]] fun d =>
    d.fileType = FileType.directory.code := by
  refine along_cons (by decide +kernel) fun i found => ?_
  obtain rfl : 1 = i := Option.some.inj
    ((by decide +kernel : lookup sampleTree (rootFcb sampleTree) [100] = some 1).symm.trans found)
  exact along_cons (by decide +kernel) fun _ _ => along_nil

theorem storeFileCached_spec_inner : ∃ cached disk',
    loadFileCached sampleTree sampleLocals (joinPath [[100], [98]]) sampleCached = some (.success, cached) ∧
      storeFileCached sampleTree sampleLocals { cached with file := { cached.file with fileSize := 5 } } =
        some disk' ∧
      ∃ reloaded, loadFileCached disk' sampleLocals (joinPath [[100], [98]]) sampleCached =
        some (.success, reloaded) ∧ reloaded.file.fileSize = 5 := by
  obtain ⟨⟨_, cached⟩, load, rfl⟩ := Option.map_eq_some_iff.mp
    (by decide +kernel : (loadFileCached sampleTree sampleLocals (joinPath [[100], [98]]) sampleCached).map
      Prod.fst = some .success)
  obtain ⟨disk', _, _, run, -, -, reload, -⟩ :=
    storeFileCached_spec sampleTree_tree sampleLocals [[100]] [98] sampleTree_path
      sampleTree_directories load { cached.file with fileSize := 5 } rfl
  obtain ⟨reloaded, again, file⟩ := reload sampleLocals sampleCached
  exact ⟨cached, disk', load, run, reloaded, again, by rw [file]⟩

/-! ## Roots with one plain file -/

def loneTable : List (List Nat × List UInt32) := [([], [1025]), ([0], [1026])]

theorem lone_places {disk : Disk} (one : entryCount (rootFcb disk) = 1)
    (leaf : (entry disk (rootFcb disk) 0).fileType ≠ FileType.directory.code) (p : List Nat) (f : FileT)
    (place : node disk (rootFcb disk) p = some f) : p ∈ loneTable.map Prod.fst := by
  cases p with
  | nil => decide
  | cons k rest =>
      obtain ⟨-, inside, place⟩ := node_cons place
      obtain rfl : k = 0 := by omega
      rw [node_leaf leaf place]
      decide

def loneRoot : FileT := { sampleRoot with fileSize := 84 }

/-- Seven entries' worth of bytes in one sector. -/
def crossFile : FileT where
  fileName := sampleName 102
  firstSector := 1026
  lastSector := 1026
  sectorCount := 1
  fileSize := 588
  fileType := FileType.normal.code

/-- The name of the last record in `f` is `x`; its other bytes are past the end of the sector, and the link leads
to the sector of the root. -/
def crossTree : Disk :=
  Function.update (layOut (layOut sampleDisk [1025] (entryBytes [crossFile])) [1024] loneRoot.bytes) 1026
    (withNextSector (ofCells 512 fun i => if i = 504 then 120 else 0) 1025)

theorem crossTree_tree : Tree crossTree :=
  tree_of_table loneTable (lone_places (by decide +kernel) (by decide +kernel)) (by decide +kernel) (by decide +kernel)
    (by decide +kernel)

/-- The path `f/x/` leads through the plain file `f`, and the write-back goes to the entry of `f` in the root. -/
theorem store_leaves_parent : Tree crossTree ∧ Path [[102], [120]] ∧ ∃ cached f disk' parent,
    loadFileCached crossTree sampleLocals (joinPath [[102], [120]]) sampleCached = some (.success, cached) ∧
      f.fileName = cached.file.fileName ∧
      storeFileCached crossTree sampleLocals { cached with file := f } = some disk' ∧
      resolve crossTree (rootFcb crossTree) [[102]] = some parent ∧ 1025 ∉ sectorsOf crossTree parent ∧
      disk' 1025 ≠ crossTree 1025 ∧ entry disk' (rootFcb crossTree) 0 ≠ entry crossTree (rootFcb crossTree) 0 := by
  have certificate : ((loadFileCached crossTree sampleLocals (joinPath [[102], [120]]) sampleCached).any fun r =>
      decide (r.1 = .success) &&
        (storeFileCached crossTree sampleLocals { r.2 with file := { r.2.file with fileSize := 5 } }).any fun disk' =>
          decide ((disk' 1025).cell 72 ≠ (crossTree 1025).cell 72) &&
          decide ((entry disk' (rootFcb crossTree) 0).sectorCount ≠
            (entry crossTree (rootFcb crossTree) 0).sectorCount)) = true := by
    decide +kernel
  have reached : (resolve crossTree (rootFcb crossTree) [[102]]).any (fun parent =>
      decide (1025 ∉ sectorsOf crossTree parent)) = true := by decide +kernel
  obtain ⟨⟨result, cached⟩, load, rest⟩ := (Option.any_eq_true _ _).mp certificate
  obtain ⟨success, rest⟩ := Bool.and_eq_true_iff.mp rest
  obtain ⟨disk', stored, changed⟩ := (Option.any_eq_true _ _).mp rest
  obtain ⟨cell, count⟩ := Bool.and_eq_true_iff.mp changed
  obtain ⟨parent, found, outside⟩ := (Option.any_eq_true _ _).mp reached
  have loaded : result = .success := of_decide_eq_true success
  refine ⟨crossTree_tree, ⟨by unfold Component; decide, by decide⟩, cached, { cached.file with fileSize := 5 }, disk',
    parent, loaded ▸ load, rfl, stored, found, of_decide_eq_true outside, fun same => ?_, fun same => ?_⟩
  · exact of_decide_eq_true cell (congrArg (fun block => block.cell 72) same)
  · exact of_decide_eq_true count (congrArg FileT.sectorCount same)

end WegOS
