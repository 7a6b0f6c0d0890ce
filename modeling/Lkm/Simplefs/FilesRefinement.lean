import Lkm.Simplefs.FileEffects

/-!
# The driver refines the files

Each ordinary call returns and is a step of `Files.Next` on the files of the volume
(`files_step`); `refines_files` makes a run of it, for all seven calls.
`written_bytes_read_back` is what a user has of it.
-/

namespace Lkm.Simplefs

open Base

/-! ## One call -/

/-- A call that nothing interrupts, on inodes that the VFS has in memory. The calls that change
something are proper ones. -/
def Ordinary (v : Vol) (s : Step) : Prop :=
  match s.2 with
  | .iterate dir _ => (v.dcache dir).any (fun d => sIsdir d.iMode) = true
  | .read file _ _ => (v.dcache file).any (fun i => decide (i.iFop = some .file)) = true
  | _ => Proper v s

instance decidableOrdinary (v : Vol) : ∀ s, Decidable (Ordinary v s)
  | (_, .iterate _ _) | (_, .read _ _ _) => inferInstanceAs (Decidable (_ = true))
  | (w, .create d n m) => decidableProper v (w, .create d n m)
  | (w, .mkdir d n m) => decidableProper v (w, .mkdir d n m)
  | (w, .lookup d n) => decidableProper v (w, .lookup d n)
  | (w, .write f b l p) => decidableProper v (w, .write f b l p)
  | (w, .remount) => decidableProper v (w, .remount)

section Step

variable {P : Platform} {m : Machine} {w : Outside}

/-- A call returns, leaves the machine idle and is a step of the files. -/
def Advances (P : Platform) (m : Machine) (s : Step) : Prop :=
  ∃ r m', (s.2.prog P).run s.1 0 m = .done r m' ∧ Idle P m' ∧
    m.mem.toVol.files.Next s r m'.mem.toVol.files

/-- What a proper create finds: a directory with room, in which the name is not taken. -/
structure Vacant (v : Vol) (dir : Path) (name : Name) (a : Nat) : Prop where
  dentry : ∃ d, v.dcache dir = some d ∧ sIsdir d.iMode = true
  parent : v.cache.resolve dir = some a
  priv : v.priv dir = some (v.cache.slot a)
  isdir : sIsdir (v.cache.slot a).mode = true
  room : (v.cache.slot a).dirChildrenCount.toNat < 16
  unresolved : v.cache.resolve (name :: dir) = none
  absent : v.dcache (name :: dir) = none

theorem Ready.vacant {N : Nat} {v : Vol} (h : Ready N v) {dir : Path} {name : Name}
    (hmem : (v.dcache dir).any (fun d => sIsdir d.iMode) = true)
    (habsent : v.cache.tree.node (name :: dir) = none)
    (hroom : (v.cache.tree.node dir).all (fun d => decide (d.extent.toNat < 16)) = true) :
    ∃ a, Vacant v dir name a := by
  obtain ⟨d, hd, hdir⟩ := (Option.any_eq_true _ _).mp hmem
  obtain ⟨a, ha, -, hpriv, hisdir⟩ := h.directory hd hdir
  refine ⟨a, ⟨d, hd, hdir⟩, ha, hpriv, hisdir, ?_, Option.map_eq_none_iff.mp habsent, ?_⟩
  · rw [TreeShaped.node_iff.mpr ⟨a, ha, rfl⟩] at hroom
    exact of_decide_eq_true hroom
  · by_contra hne
    obtain ⟨e, he⟩ := Option.ne_none_iff_exists'.mp hne
    have hfinds := h.finds_of_dcache he
    rw [habsent] at hfinds
    exact hfinds

theorem Idle.advances_create (h : Idle P m) (hN : P.nrBlocks ≤ 31) (hw : w.Uninterrupted) {c : Call}
    {dir : Path} {name : Name} {mode : U32} (hc : c.makes = some (dir, name, mode))
    (hprog : c.prog P = vfsCreate dir name (simplefsCreateFsObject P dir name mode))
    (hmem : (m.mem.dcache dir).any (fun d => sIsdir d.iMode) = true)
    (hname : name.bytes.length ≤ 247) (habsent : m.mem.cache.tree.node (name :: dir) = none)
    (hroom : (m.mem.cache.tree.node dir).all (fun d => decide (d.extent.toNat < 16)) = true) :
    Advances P m (w, c) := by
  obtain ⟨-, r, m', hrun, hidle, r', rfl, hcreate⟩ := h.create hN hw hmem hname habsent hroom
  obtain ⟨a, hv⟩ := h.1.vacant hmem habsent hroom
  have hvwp : vwp (fun _ => True) w AnyFault
      (vfsCreate dir name (simplefsCreateFsObject P dir name mode)) (fun r v' => ∀ r' ino,
        r = .status r' → ino = newInode P m.mem.toVol mode (w.answer .slab) →
          CreateLeaves P P.nrBlocks m.mem.toVol dir name ino a v' r') m.mem.toVol := by
    obtain ⟨d, hd, hdir⟩ := hv.dentry
    apply vwp_vfsCreate
    · intro hnone
      cases hd.symm.trans hnone
    · intro d' hd' hnot
      cases hd.symm.trans hd'
      cases hdir.symm.trans hnot
    · intro i hi
      cases hv.absent.symm.trans hi
    · intro _ _ _ _
      apply vwp_mono _ (vwp_simplefsCreateFsObject trivial (h.1.create_ends hN hw hv.parent hv.priv
        hv.isdir hv.room (Nat.lt_succ_of_le hname) hv.absent))
      rintro r v' hr r' ino ⟨⟩ hino
      exact hr ino hino
  have hend := vwp_at_end hvwp hrun r' _ rfl rfl
  have hrun' : (c.prog P).run w 0 m = .done (.status r') m' := hprog ▸ hrun
  refine ⟨_, m', hrun', hidle, ?_⟩
  cases r' with
  | error e =>
      have hsame : m'.mem.toVol = m.mem.toVol := hend
      have htree : m'.mem.cache.tree = m.mem.cache.tree := by rw [hsame]
      rw [hsame]
      rw [htree] at hcreate
      exact .refused hc hcreate
  | ok u =>
      obtain ⟨hcreating, hcreated⟩ := hend
      have hfiles := hcreating.files_created h.1 hv.parent hv.unresolved
      rw [← hcreated] at hfiles
      rw [hfiles]
      refine .create hc habsent ?_ hcreate ?_
      · exact ⟨_, TreeShaped.node_iff.mpr ⟨a, hv.parent, rfl⟩, hv.isdir⟩
      · show Option.isNone (if sIsdir mode then none else some _) = sIsdir mode
        cases sIsdir mode <;> rfl

theorem Idle.advances_lookup (h : Idle P m) (hw : w.Uninterrupted) {dir : Path} {name : Name}
    (hmem : (m.mem.dcache dir).any (fun d => sIsdir d.iMode) = true) :
    Advances P m (w, .lookup dir name) := by
  obtain ⟨-, r, m', hrun, hidle, hnext⟩ := h.lookup hw hmem
  have hsame := vwp_at_end (vwp_lookup_blocks dir name) hrun
  refine ⟨r, m', hrun, hidle, ?_⟩
  rw [hsame.files]
  generalize m'.mem.cache.tree = t at hnext
  cases hnext with
  | lookup hfinds => exact .lookup hfinds

theorem Idle.advances_iterate (h : Idle P m) {dir : Path} {ctx : DirContext}
    (hmem : (m.mem.dcache dir).any (fun d => sIsdir d.iMode) = true) :
    Advances P m (w, .iterate dir ctx) := by
  obtain ⟨d, hd, hdir⟩ := (Option.any_eq_true _ _).mp hmem
  obtain ⟨a, ha, hlt, hpriv, hisdir⟩ := h.1.directory hd hdir
  have hsmall := h.1.shaped.children_le a hlt hisdir
  have hblock := h.1.shaped.block_range a hlt
  have hcall : ∀ ctx', (simplefsIterate P dir ctx).run w 0 m = .done (.ok ctx') m →
      (Call.prog P (.iterate dir ctx)).run w 0 m = .done (.listed (.ok ctx')) m := by
    intro ctx' hrun
    rw [Call.prog, run_vfsDirectory hd hdir, Prog.run_bind, hrun]
    rfl
  by_cases hpos : ctx.pos = 0
  · have hwalk := iterateFrom_eq (m.mem.cache.slot a).dataBlockNumber.toNat
      (m.mem.cache (m.mem.cache.slot a).dataBlockNumber.toNat)
      (n := (m.mem.cache.slot a).dirChildrenCount.toNat) (k := 0) (by omega) ctx
    refine ⟨_, m, hcall _ (run_simplefsIterate hpos hpriv hisdir hblock.2 hwalk), h, ?_⟩
    refine .list hpos ?_
    rw [Vol.files_entries ha, Image.entriesAt_dir hisdir]
    constructor
    case emitted =>
      refine ⟨_, rfl, ?_⟩
      rw [List.map_map, ← List.map_take, List.range_eq_range']
      rfl
    case room => simp
    case pos =>
      show ctx.pos + _ = _
      rw [hpos, List.length_map, List.length_range]
      exact BitVec.zero_add _
  · exact ⟨_, m, hcall _ (run_simplefsIterate_again hpos), h, .listed hpos⟩

theorem Idle.advances_read (h : Idle P m) (hsized : m.mem.toVol.files.Sized) {file : Path}
    {len pos : U64} (hmem : (m.mem.dcache file).any (fun i => decide (i.iFop = some .file)) = true) :
    Advances P m (w, .read file len pos) := by
  obtain ⟨i, hi, hfop⟩ := (Option.any_eq_true _ _).mp hmem
  have hfile := of_decide_eq_true hfop
  obtain ⟨k, hk, hlt, hpriv, hnotdir, -⟩ := h.1.file hi hfile
  have hblock := h.1.shaped.block_range k hlt
  have hsize : (m.mem.cache.slot k).fileSize.toNat ≤ 4096 :=
    hsized file _ (TreeShaped.node_iff.mpr ⟨k, hk, rfl⟩) hnotdir
  have hbytes := Vol.files_bytes hk hnotdir
  have hlen : (m.mem.toVol.files.bytes file).length = (m.mem.cache.slot k).fileSize.toNat := by
    rw [hbytes, slice_length]
  have hcall : ∀ r pos', (simplefsRead P file len pos).run w 0 m = .done (r, pos') m →
      (Call.prog P (.read file len pos)).run w 0 m = .done (.bytes r pos') m := by
    intro r pos' hrun
    rw [Call.prog, run_vfsFile hi hfile, Prog.run_bind, hrun]
    rfl
  by_cases hend : (m.mem.cache.slot k).fileSize ≤ pos
  · have hpast : (m.mem.toVol.files.bytes file).length ≤ pos.toNat := by
      rw [hlen]
      exact BitVec.le_def.mp hend
    have hnone : headRead (m.mem.toVol.files.bytes file) pos.toNat len.toNat = [] := if_pos hpast
    refine ⟨_, m, hcall _ _ (run_simplefsRead_end hpriv hend), h, ?_⟩
    have hnext : m.mem.toVol.files.Next (w, .read file len pos) _ m.mem.toVol.files :=
      .read hnone.symm (.inr hpast)
    rwa [List.length_nil, show ∀ x : U64, x + BitVec.ofNat 64 0 = x from BitVec.add_zero] at hnext
  · have hbefore : pos.toNat < (m.mem.toVol.files.bytes file).length := by
      rw [hlen]
      exact Nat.lt_of_not_le fun hle => hend (BitVec.le_def.mpr hle)
    cases hcopy : w.answer .copyToUser with
    | true =>
        obtain ⟨bytes, hread, hrun⟩ := run_read hpriv hblock.2 hsize hcopy len pos
        refine ⟨_, m, hcall _ _ hrun, h, .read ?_ (.inl hcopy)⟩
        rw [hread, contents_eq hpriv, hbytes]
    | false =>
        exact ⟨_, m, hcall _ _ (run_simplefsRead_fault hpriv hblock.2 hsize hend hcopy), h,
          .readFault hcopy hbefore⟩

theorem Idle.advances_write (h : Idle P m) (hw : w.Uninterrupted) {file : Path} {buf : Buf}
    {len pos : U64} (hmem : (m.mem.dcache file).any (fun i => decide (i.iFop = some .file)) = true)
    (hfits : pos.toNat + len.toNat ≤ 4096) : Advances P m (w, .write file buf len pos) := by
  obtain ⟨i, hi, hfop⟩ := (Option.any_eq_true _ _).mp hmem
  have hfile := of_decide_eq_true hfop
  obtain ⟨k, hk, hlt, hpriv, hnotdir, -⟩ := h.1.file hi hfile
  have hblock := h.1.shaped.block_range k hlt
  have hpage : m.mem.toVol.files.page file =
      some (m.mem.cache (m.mem.cache.slot k).dataBlockNumber.toNat) := by
    rw [Vol.files_page hk, Image.pageIn_file hnotdir]
  have hserves : Serves P (Call.prog P (.write file buf len pos)) w m _ := h.write hw hmem hfits
  obtain ⟨-, r, m', hrun, hidle, -⟩ := hserves
  have hvwp : vwp (fun _ => True) w (fun _ => False) (Call.prog P (.write file buf len pos))
      (fun r v' => m.mem.toVol.files.Next (w, .write file buf len pos) r v'.files) m.mem.toVol := by
    apply vwp_vfsFile_some hi hfile
    apply vwp_bind
    apply vwp_simplefsWrite trivial
    apply WriteOk.of_quiet hw hblock.1 hblock.2 hpriv (h.1.search_slot hlt) hfits
    · exact fun _ _ => trivial
    · exact fun _ _ => trivial
    · intro hshort
      apply vwp_pure
      rw [files_copied h.1.shaped hk hnotdir hpriv]
      exact .writeFault hshort hpage
    · intro hfull
      apply vwp_pure
      rw [files_saved h.1.shaped hk hnotdir, copiedBytes_full hfull]
      exact .write hfull hpage
  obtain ⟨r', m₁, hrun', hnext, -⟩ := vwp_done (keeps_call P _) hw h.2 hvwp
  cases hrun.symm.trans hrun'
  exact ⟨r, m', hrun, hidle, hnext⟩

theorem Idle.advances_remount (h : Idle P m) (hw : w.Uninterrupted) : Advances P m (w, .remount) := by
  obtain ⟨-, r, m', hrun, hidle, hnext⟩ :=
    h.serves_of_vwp hw (keeps_call P _) (h.1.remount h.1.two_le)
  have hsame := vwp_at_end vwp_remount_blocks hrun
  refine ⟨r, m', hrun, hidle, ?_⟩
  rw [hsame.files]
  generalize m'.mem.cache.tree = t at hnext
  cases hnext with
  | remount => exact .remount (h.1.remounts _)

end Step

/-- An ordinary call. -/
theorem files_step {P : Platform} (hN : P.nrBlocks ≤ 31) (m : Machine) (s : Step)
    (hm : Idle P m ∧ m.mem.toVol.files.Sized) (hs : Ordinary m.mem.toVol s) :
    ∃ r m', (s.2.prog P).run s.1 0 m = .done r m' ∧ (Idle P m' ∧ m'.mem.toVol.files.Sized) ∧
      m.mem.toVol.files.Next s r m'.mem.toVol.files := by
  obtain ⟨h, hsized⟩ := hm
  have hfits : ∀ file buf len pos, s.2 = .write file buf len pos → (pos + len).toNat ≤ 4096 := by
    obtain ⟨w, c⟩ := s
    rintro file buf len pos rfl
    rw [toNat_pos_add hs.2.2]
    exact hs.2.2
  have hadvances : Advances P m s := by
    obtain ⟨w, c⟩ := s
    cases c with
    | create dir name mode =>
        obtain ⟨hw, hmem, hname, habsent, hroom⟩ := hs
        exact h.advances_create hN hw rfl rfl hmem hname habsent hroom
    | mkdir dir name mode =>
        obtain ⟨hw, hmem, hname, habsent, hroom⟩ := hs
        exact h.advances_create hN hw rfl rfl hmem hname habsent hroom
    | lookup dir name => exact h.advances_lookup hs.1 hs.2
    | iterate dir ctx => exact h.advances_iterate hs
    | read file len pos => exact h.advances_read hsized hs
    | write file buf len pos => exact h.advances_write hs.1 hs.2.1 hs.2.2
    | remount => exact h.advances_remount hs.1
  obtain ⟨r, m', hrun, hidle, hnext⟩ := hadvances
  exact ⟨r, m', hrun, ⟨hidle, hnext.sized hsized hfits⟩, hnext⟩

/-! ## Runs -/

/-- The files of an image that has just been mounted. -/
theorem TreeShaped.files_mount {P : Platform} {img : Image} (h : TreeShaped P.nrBlocks img) :
    (mount P img).mem.toVol.files = (Vol.ofImage img).files := by
  obtain ⟨i, hget, hready⟩ := h.mounted
  rw [(mount_eq (P := P) hready.two_le hget).1]
  exact Vol.files_congr rfl rfl

theorem emptyRoot_sized : (Vol.ofImage emptyRoot).files.Sized := by
  intro p n hn hfile
  obtain ⟨k, hk, rfl⟩ := TreeShaped.node_iff.mp hn
  have hk : emptyRoot.resolve p = some k := hk
  have hfile : sIsdir (emptyRoot.slot k).mode = false := hfile
  rw [emptyRoot_zero (emptyRoot_treeShaped.resolve_lt hk), emptyRoot_slot] at hfile
  cases hfile

/-- A file is made and written, and read again after the volume was unmounted; the directory is
listed on the way. -/
def rereadSteps : List Step :=
  [(calm, .create [] nameF sIfreg), (calm, .write [nameF] (fun _ => 0x78) 3 0),
    (calm, .iterate [] ⟨0, 4, []⟩), (calm, .remount), (calm, .lookup [] nameF),
    (calm, .read [nameF] 8 0)]

theorem rereadSteps_ordinary :
    Issues demoPlatform Ordinary rereadSteps (mount demoPlatform emptyRoot) := by
  decide +kernel

/-- The object behind an open file. -/
theorem Idle.file_node {P : Platform} {m : Machine} (h : Idle P m) {file : Path}
    (hmem : (m.mem.dcache file).any (fun i => decide (i.iFop = some .file)) = true) :
    ∃ n, m.mem.toVol.files.tree.node file = some n ∧ sIsdir n.mode = false := by
  obtain ⟨i, hi, hfop⟩ := (Option.any_eq_true _ _).mp hmem
  obtain ⟨k, hk, -, -, hnotdir, -⟩ := h.1.file hi (of_decide_eq_true hfop)
  exact ⟨_, TreeShaped.node_iff.mpr ⟨k, hk, rfl⟩, hnotdir⟩

/-- What a write has put into a file is read back later, whatever ordinary calls come between the
two, unmounting included, as long as none of them writes to that file. In front of it are the
bytes that were there. -/
theorem written_bytes_read_back (P : Platform) (hN : P.nrBlocks ≤ 31) (img : Image)
    (h : TreeShaped P.nrBlocks img) (hsized : (Vol.ofImage img).files.Sized)
    (before after : List Step) (w w' : Outside) (file : Path) (buf : Buf) (len pos len' pos' : U64)
    (hs : Issues P Ordinary (before ++ (w, .write file buf len pos) ::
      (after ++ [(w', .read file len' pos')])) (mount P img))
    (hfull : len.toNat ≤ w.answer .copyFromUser) (hcopy : w'.answer .copyToUser = true)
    (hafter : ∀ s ∈ after, Files.writesTo file s.2 = false) :
    ∃ rs m₁ b rs' end' m₂, outcome P before (mount P img) = .done rs m₁ ∧
      m₁.mem.toVol.files.page file = some b ∧
      outcome P ((w, .write file buf len pos) :: (after ++ [(w', .read file len' pos')])) m₁ =
        .done (.count (.ok len) (pos + len) :: (rs' ++ [.bytes (.ok (headRead
          (slice b 0 pos.toNat ++ slice buf 0 len.toNat) pos'.toNat len'.toNat)) end'])) m₂ := by
  obtain ⟨hbefore, hrest⟩ := eachStep_append hs
  obtain ⟨rs, m₁, hruns, hm₁, -⟩ := runs_refines (files_step hN) before _
    ⟨h.idle.1, h.files_mount ▸ hsized⟩ hbefore
  obtain ⟨as, m₂, hruns', -, hspec⟩ := runs_refines (files_step hN) _ _ hm₁ (hrest rs m₁ hruns)
  obtain ⟨n, hnode, hfile⟩ := hm₁.1.file_node (hrest rs m₁ hruns).1.2.1
  have hfits := (hrest rs m₁ hruns).1.2.2
  generalize m₂.mem.toVol.files = s₂ at hspec
  -- the write, the calls after it, and the read
  cases hspec with
  | cons hwrite hspec =>
      obtain ⟨s', as₁, as₂, rfl, hmiddle, hread⟩ := SpecRun.append hspec
      cases hwrite with
      | refused hc => cases hc
      | create hc => cases hc
      | writeFault hshort => exact absurd hfull (Nat.not_le.mpr hshort)
      | @write _ _ _ b _ _ _ hpage =>
          have hsettled := Files.settled_run hmiddle
            (Files.settled_overwrite hnode hfile (put b pos.toNat (slice buf 0 len.toNat)) (pos + len))
            hafter
          cases hread with
          | cons hread hnil =>
              cases hnil
              cases hread with
              | refused hc => cases hc
              | create hc => cases hc
              | readFault hfault => cases hcopy.symm.trans hfault
              | read hbytes =>
                  have hend := slice_put_end b pos.toNat (slice buf 0 len.toNat)
                  rw [slice_length] at hend
                  rw [hsettled.bytes_eq, toNat_pos_add hfits, hend] at hbytes
                  subst hbytes
                  exact ⟨rs, m₁, b, as₁, _, m₂, hruns, hpage, hruns'⟩

theorem written_bytes_read_back_remounted :
    ∃ rs m₁ b rs' end' m₂,
      outcome demoPlatform [(calm, .create [] nameF sIfreg)] (mount demoPlatform emptyRoot) =
        .done rs m₁ ∧
      m₁.mem.toVol.files.page [nameF] = some b ∧
      outcome demoPlatform [(calm, .write [nameF] (fun _ => 0x78) 3 0), (calm, .iterate [] ⟨0, 4, []⟩),
          (calm, .remount), (calm, .lookup [] nameF), (calm, .read [nameF] 8 0)] m₁ =
        .done (.count (.ok 3) 3 :: (rs' ++ [.bytes (.ok [0x78, 0x78, 0x78]) end'])) m₂ :=
  written_bytes_read_back demoPlatform (by decide) emptyRoot emptyRoot_treeShaped emptyRoot_sized
    [(calm, .create [] nameF sIfreg)]
    [(calm, .iterate [] ⟨0, 4, []⟩), (calm, .remount), (calm, .lookup [] nameF)] calm calm [nameF]
    (fun _ => 0x78) 3 0 8 0 rereadSteps_ordinary (by decide) rfl (by
      intro s hs
      rcases List.mem_cons.mp hs with rfl | hs
      · rfl
      rcases List.mem_cons.mp hs with rfl | hs
      · rfl
      obtain rfl := List.mem_singleton.mp hs
      rfl)

end Lkm.Simplefs
