import Esp32Ipc.Detect.PackTable

/-!
# The loop of the packing tool

`pack_models` goes through the models with two running offsets, which it moves only once something
has been put down. Followed model by model it puts down exactly the packed file.
-/

namespace Esp32Ipc.Detect

open Framework ByteMemory

theorem bind_eq_ok {ε α β : Type} {x : Except ε α} {f : α → Except ε β} {b : β} :
    (x >>= f) = .ok b ↔ ∃ a, x = .ok a ∧ f a = .ok b := by
  cases x with
  | error e => simp [bind,Except.bind]
  | ok a => simp [bind,Except.bind]

theorem structPackI_eq_ok {n : Nat} {bytes : List UInt8} :
    structPackI n = .ok bytes ↔ n < 4294967296 ∧ bytes = wordBytes n := by
  rw [structPackI]
  split
  · simp [*,eq_comm]
  · simp [*]

/-- `None` for the empty string. -/
def packedString (s : Text) : Option (List UInt8) := if s = [] then none else some (tagBytes s)

private theorem structPackString_chars {s : Text} {acc out : Option (List UInt8)} :
    s.foldlM (fun (out : Option (List UInt8)) char => do
      let byte ← structPackChar char
      return some (out.getD [] ++ [byte])) acc = Except.ok out ↔
    Ascii s ∧ out = if s = [] then acc else some (acc.getD [] ++ tagBytes s) := by
  induction s generalizing acc with
  | nil => simp [Ascii,pure,Except.pure,eq_comm]
  | cons c s ih =>
    rw [List.foldlM_cons,structPackChar]
    by_cases hc : c.toNat ≤ 127
    · rw [if_pos hc]
      change List.foldlM _ (some (acc.getD [] ++ [UInt8.ofNat c.toNat])) s = _ ↔ _
      rw [ih]
      by_cases hs : s = []
      · subst s
        simp [Ascii,hc,tagBytes]
      · simp [Ascii,hc,hs,tagBytes]
    · rw [if_neg hc]
      simp [bind,Except.bind,Ascii,hc]

theorem structPackString_self {s : Text} {out : Option (List UInt8)} :
    structPackString s (some s.length) = .ok out ↔ Ascii s ∧ out = packedString s := by
  rw [structPackString]
  simp only [Option.getD_some,lt_irrefl,if_false,Nat.sub_self,List.range_zero,List.foldlM_nil]
  change (List.foldlM _ none s >>= pure) = _ ↔ _
  rw [bind_pure,structPackString_chars]
  rfl

@[simp] theorem packedString_getD (s : Text) : (packedString s).getD [] = tagBytes s := by
  by_cases h : s = []
  · subst s
    rfl
  · rw [packedString,if_neg h]
    rfl

theorem truthy_iff {bin : Option (List UInt8)} : truthy bin = true ↔ bin.getD [] ≠ [] := by
  cases bin <;> simp [truthy]

/-- The offset is moved by the segment before, and is not moved while nothing has been put down:
either way it comes to where the next segment starts. -/
theorem next_start {segs : List (List UInt8)} {bin : Option (List UInt8)} {base offset : Nat}
    (hbin : bin.getD [] = segs.flatten) (hoffset : offset = base + segs.dropLast.flatten.length) :
    (if truthy bin then offset + (segs.getD (segs.length - 1) []).length else offset) =
      base + segs.flatten.length := by
  induction segs using List.reverseRecOn with
  | nil =>
    rw [if_neg (by rw [truthy_iff,hbin]; simp)]
    exact hoffset
  | append_singleton segs s =>
    have hlast : (segs ++ [s]).getD ((segs ++ [s]).length - 1) [] = s := by simp
    rw [List.dropLast_concat] at hoffset
    rw [hlast,hoffset]
    by_cases ht : truthy bin = true
    · rw [if_pos ht,List.flatten_concat,List.length_append,Nat.add_assoc]
    · have hnone : (segs ++ [s]).flatten = [] := by
        rw [← hbin]
        exact not_not.mp (mt truthy_iff.mpr ht)
      have hsegs : segs.flatten = [] := (List.append_eq_nil_iff.mp (List.flatten_concat ▸ hnone)).1
      rw [if_neg ht,hnone,hsegs]

/-- What the loop has put down after the models `done`. -/
structure Packing (head : List UInt8) (nameOffset dataOffset : Nat)
    (done : List (Text × List UInt8)) (st : PackState) : Prop where
  names : st.nameBin.getD [] = (nameSegments done).flatten
  data : st.dataBin.getD [] = (dataSegments done).flatten
  stored : done ≠ [] → st.dataBin.isSome
  nameAt : st.nameOffset = nameOffset + (nameSegments done).dropLast.flatten.length
  dataAt : st.dataOffset = dataOffset + (dataSegments done).dropLast.flatten.length
  header : st.headerBin = head ++ (layout nameOffset dataOffset done).flatMap PackEntry.words
  fits : ∀ e ∈ layout nameOffset dataOffset done, e.Fits
  ascii : ∀ m ∈ done, Ascii m.1

section Loop

variable {head : List UInt8} {nameOffset dataOffset : Nat} {done l : List (Text × List UInt8)}
  {m : Text × List UInt8} {st st' : PackState}

private theorem getD_here {α : Type} (f : Text × List UInt8 → List α) :
    ((done ++ m :: l).map f).getD done.length [] = f m := by
  simp [List.getD_eq_getElem?_getD]

private theorem getD_before {α : Type} (f : Text × List UInt8 → List α) :
    (((done ++ m :: l).map f).getD (done.length - 1) []).length =
      if done = [] then (f m).length else ((done.map f).getD (done.length - 1) []).length := by
  by_cases hdone : done = []
  · subst done
    simp
  · have hlt : done.length - 1 < done.length := by
      have := List.length_pos_iff.mpr hdone
      omega
    rw [if_neg hdone,List.map_append,List.getD_append _ _ _ _ (by simpa using hlt)]

theorem Packing.nameOffset_next (h : Packing head nameOffset dataOffset done st) :
    (if truthy st.nameBin then
      st.nameOffset + (((done ++ m :: l).map Prod.fst).getD (done.length - 1) []).length
    else st.nameOffset) = nameOffset + (nameSegments done).flatten.length := by
  rw [← next_start h.names h.nameAt,nameSegments_length]
  by_cases hdone : done = []
  · subst done
    have hnot : ¬truthy st.nameBin = true := by
      rw [truthy_iff,h.names]
      simp [nameSegments]
    rw [if_neg hnot,if_neg hnot]
  · rw [getD_before,if_neg hdone,nameSegments]
    have hlen : ((done.map fun m => tagBytes m.1).getD (done.length - 1) []).length =
        ((done.map Prod.fst).getD (done.length - 1) []).length := by
      simp only [List.getD_eq_getElem?_getD,List.getElem?_map]
      cases done[done.length - 1]? <;> simp
    rw [hlen]

theorem Packing.dataOffset_next (h : Packing head nameOffset dataOffset done st) :
    (if truthy st.dataBin then
      st.dataOffset + (((done ++ m :: l).map Prod.snd).getD (done.length - 1) []).length
    else st.dataOffset) = dataOffset + (dataSegments done).flatten.length := by
  rw [← next_start h.data h.dataAt,dataSegments_length]
  by_cases hdone : done = []
  · subst done
    have hnot : ¬truthy st.dataBin = true := by
      rw [truthy_iff,h.data]
      simp [dataSegments]
    rw [if_neg hnot,if_neg hnot]
  · rw [getD_before,if_neg hdone]
    rfl

/-- The name that the loop adds to what it has, the first one that is not empty as it is. -/
def joinedName (bin : Option (List UInt8)) (name : Text) : Option (List UInt8) :=
  if truthy bin then some (bin.getD [] ++ tagBytes name) else packedString name

theorem Packing.packName_eq_ok (h : Packing head nameOffset dataOffset done st) :
    packName ((done ++ m :: l).map Prod.fst) st done.length = .ok st' ↔
      Ascii m.1 ∧ (truthy st.nameBin = true → m.1 ≠ []) ∧
      st' = { st with
        nameBin := joinedName st.nameBin m.1
        nameOffset := nameOffset + (nameSegments done).flatten.length } := by
  have hnext := h.nameOffset_next (m := m) (l := l)
  rw [packName,getD_here,bind_eq_ok]
  simp only [structPackString_self]
  by_cases ht : truthy st.nameBin = true
  · rw [if_pos ht] at hnext
    rw [hnext]
    by_cases hname : m.1 = []
    · simp [ht,hname,packedString,throw,throwThe,MonadExceptOf.throw]
    · simp [ht,hname,packedString,joinedName,pure,Except.pure,eq_comm]
  · rw [if_neg ht] at hnext
    rw [← hnext]
    simp [ht,joinedName,pure,Except.pure,eq_comm]

theorem Packing.packData_eq (h : Packing head nameOffset dataOffset done st)
    (nameBin : Option (List UInt8)) (offset : Nat) :
    packData ((done ++ m :: l).map Prod.snd) { st with nameBin := nameBin, nameOffset := offset }
      done.length =
    { st with
      nameBin := nameBin
      nameOffset := offset
      dataBin := some ((dataSegments done).flatten ++ m.2)
      dataOffset := dataOffset + (dataSegments done).flatten.length } := by
  have hnext := h.dataOffset_next (m := m) (l := l)
  rw [packData,getD_here]
  by_cases ht : truthy st.dataBin = true
  · rw [if_pos ht] at hnext
    rw [← hnext,← h.data]
    simp [ht]
  · rw [if_neg ht] at hnext
    have hnone : (dataSegments done).flatten = [] := by
      rw [← h.data]
      exact not_not.mp (mt truthy_iff.mpr ht)
    rw [← hnext,hnone]
    simp [ht]

theorem packOffsets_eq_ok {name : Text} :
    packOffsets st name = .ok st' ↔
      PackEntry.Fits ⟨st.dataOffset,st.nameOffset,name.length⟩ ∧
      st' = { st with
        headerBin := st.headerBin ++ PackEntry.words ⟨st.dataOffset,st.nameOffset,name.length⟩ } := by
  rw [packOffsets]
  simp only [bind_eq_ok,structPackI_eq_ok,pure,Except.pure,Except.ok.injEq]
  constructor
  · rintro ⟨_,⟨hdata,rfl⟩,_,⟨hname,rfl⟩,_,⟨hlength,rfl⟩,rfl⟩
    exact ⟨⟨hdata,hname,hlength⟩,by simp [PackEntry.words]⟩
  · rintro ⟨⟨hdata,hname,hlength⟩,rfl⟩
    exact ⟨_,⟨hdata,rfl⟩,_,⟨hname,rfl⟩,_,⟨hlength,rfl⟩,by simp [PackEntry.words]⟩

theorem Packing.packStep_eq_ok (h : Packing head nameOffset dataOffset done st) :
    packStep ((done ++ m :: l).map Prod.fst) ((done ++ m :: l).map Prod.snd) st done.length = .ok st' ↔
      (Ascii m.1 ∧ (truthy st.nameBin = true → m.1 ≠ []) ∧
        (entryAfter nameOffset dataOffset done m.1).Fits) ∧
      st' = ⟨joinedName st.nameBin m.1,some ((dataSegments done).flatten ++ m.2),
        nameOffset + (nameSegments done).flatten.length,dataOffset + (dataSegments done).flatten.length,
        st.headerBin ++ (entryAfter nameOffset dataOffset done m.1).words⟩ := by
  rw [packStep,bind_eq_ok]
  simp only [h.packName_eq_ok,getD_here,packOffsets_eq_ok]
  constructor
  · rintro ⟨_,⟨hascii,hname,rfl⟩,hfits,rfl⟩
    rw [h.packData_eq] at hfits ⊢
    exact ⟨⟨hascii,hname,hfits⟩,rfl⟩
  · rintro ⟨⟨hascii,hname,hfits⟩,rfl⟩
    refine ⟨_,⟨hascii,hname,rfl⟩,?_⟩
    rw [h.packData_eq]
    exact ⟨hfits,rfl⟩

theorem Packing.step (h : Packing head nameOffset dataOffset done st)
    (hstep : packStep ((done ++ m :: l).map Prod.fst) ((done ++ m :: l).map Prod.snd) st
      done.length = .ok st') : Packing head nameOffset dataOffset (done ++ [m]) st' := by
  obtain ⟨⟨hascii,hname,hfits⟩,rfl⟩ := h.packStep_eq_ok.mp hstep
  constructor
  case names =>
    rw [nameSegments_concat,List.flatten_concat,← h.names]
    by_cases ht : truthy st.nameBin = true
    · simp [joinedName,ht]
    · have hnone : st.nameBin.getD [] = [] := not_not.mp (mt truthy_iff.mpr ht)
      simp [joinedName,ht,hnone]
  case data => rw [dataSegments_concat,List.flatten_concat,Option.getD_some]
  case stored => exact fun _ => rfl
  case nameAt => rw [nameSegments_concat,List.dropLast_concat]
  case dataAt => rw [dataSegments_concat,List.dropLast_concat]
  case header => rw [layout_concat,List.flatMap_append,List.flatMap_singleton,h.header,List.append_assoc]
  case fits =>
    intro e he
    rcases List.mem_append.mp (layout_concat ▸ he) with he | he
    · exact h.fits e he
    · exact List.mem_singleton.mp he ▸ hfits
  case ascii =>
    intro n hn
    rcases List.mem_append.mp hn with hn | hn
    · exact h.ascii n hn
    · exact List.mem_singleton.mp hn ▸ hascii

private theorem foldlM_range_succ {σ : Type} (f : σ → Nat → Except PackError σ) (s : σ) (n : Nat) :
    (List.range (n + 1)).foldlM f s = (List.range n).foldlM f s >>= fun t => f t n := by
  rw [List.range_succ,List.foldlM_append]
  simp only [List.foldlM_cons,List.foldlM_nil,bind_pure]

private theorem split_at {models : List (Text × List UInt8)} {n : Nat} (hn : n < models.length) :
    models.take n ++ models[n] :: models.drop (n + 1) = models ∧ (models.take n).length = n := by
  rw [← List.drop_eq_getElem_cons,List.take_append_drop,List.length_take]
  exact ⟨rfl,Nat.min_eq_left hn.le⟩

theorem Packing.run {models : List (Text × List UInt8)} {n : Nat} (hn : n ≤ models.length)
    (h : Packing head nameOffset dataOffset [] st)
    (hrun : (List.range n).foldlM (packStep (models.map Prod.fst) (models.map Prod.snd)) st = .ok st') :
    Packing head nameOffset dataOffset (models.take n) st' := by
  induction n generalizing st' with
  | zero =>
    cases Except.ok.inj hrun
    rwa [List.take_zero]
  | succ n ih =>
    rw [foldlM_range_succ,bind_eq_ok] at hrun
    obtain ⟨u,hu,hlast⟩ := hrun
    obtain ⟨hsplit,hlen⟩ := split_at hn
    have hpacking := ih (Nat.le_of_succ_le hn) hu
    rw [List.take_succ_eq_append_getElem hn]
    apply hpacking.step (l := models.drop (n + 1))
    rw [hsplit,hlen]
    exact hlast

theorem Packing.run_exists {models : List (Text × List UInt8)} {n : Nat} (hn : n ≤ models.length)
    (h : Packing head nameOffset dataOffset [] st) (hnames : ∀ m ∈ models, m.1 ≠ [] ∧ Ascii m.1)
    (hfits : ∀ e ∈ layout nameOffset dataOffset models, e.Fits) :
    ∃ st', (List.range n).foldlM (packStep (models.map Prod.fst) (models.map Prod.snd)) st = .ok st' := by
  induction n with
  | zero => exact ⟨st,rfl⟩
  | succ n ih =>
    obtain ⟨u,hu⟩ := ih (Nat.le_of_succ_le hn)
    obtain ⟨hsplit,hlen⟩ := split_at hn
    have hpacking := h.run (Nat.le_of_succ_le hn) hu
    have hmem : models[n] ∈ models := List.getElem_mem _
    have hentry : entryAfter nameOffset dataOffset (models.take n) models[n].1 ∈
        layout nameOffset dataOffset models := by
      have hlayout := layout_append nameOffset dataOffset (models.take n) (models[n] :: models.drop (n + 1))
      rw [hsplit] at hlayout
      rw [hlayout]
      exact List.mem_append_right _ List.mem_cons_self
    have hstep := (hpacking.packStep_eq_ok (l := models.drop (n + 1))).mpr
      ⟨⟨(hnames _ hmem).2,fun _ => (hnames _ hmem).1,hfits _ hentry⟩,rfl⟩
    rw [hsplit,hlen] at hstep
    rw [foldlM_range_succ,hu]
    exact ⟨_,hstep⟩

end Loop

theorem structPackString_packTag (format : Format) :
    structPackString format.packTag (some 4) = .ok (some (tagBytes format.packTag)) := by
  cases format <;> rfl

theorem nameLength_eq (models : List (Text × List UInt8)) :
    ((models.map Prod.fst).map List.length).sum = (nameSegments models).flatten.length := by
  rw [List.length_flatten,nameSegments,List.map_map,List.map_map]
  congr 1
  apply List.map_congr_left
  intro m _
  exact (tagBytes_length m.1).symm

/-- Where the loop begins. -/
def packStart (format : Format) (models : List (Text × List UInt8)) : PackState where
  nameBin := none
  dataBin := none
  nameOffset := namesStart models.length
  dataOffset := dataStart format (namesStart models.length) (nameSegments models).flatten.length
  headerBin := tagBytes format.packTag ++ wordBytes models.length

theorem packStart_packing (format : Format) (models : List (Text × List UInt8)) :
    Packing (tagBytes format.packTag ++ wordBytes models.length) (namesStart models.length)
      (dataStart format (namesStart models.length) (nameSegments models).flatten.length) []
      (packStart format models) where
  names := rfl
  data := rfl
  stored := fun h => absurd rfl h
  nameAt := rfl
  dataAt := rfl
  header := (List.append_nil _).symm
  fits := fun _ he => absurd he List.not_mem_nil
  ascii := fun _ hm => absurd hm List.not_mem_nil

theorem packBins_eq_ok {format : Format} {models : List (Text × List UInt8)} {file : List UInt8} :
    packBins format (models.map Prod.fst) (models.map Prod.snd) = .ok file ↔
      models.length < 4294967296 ∧ ∃ st nameBin dataBin,
        (List.range models.length).foldlM (packStep (models.map Prod.fst) (models.map Prod.snd))
          (packStart format models) = .ok st ∧
        st.nameBin = some nameBin ∧ st.dataBin = some dataBin ∧
        file = st.headerBin ++ nameBin ++ packPadding format models ++ dataBin := by
  rw [packBins,structPackString_packTag,bind_eq_ok]
  simp only [Except.ok.injEq,exists_eq_left',bind_eq_ok,structPackI_eq_ok,nameLength_eq,List.length_map]
  constructor
  · rintro ⟨_,⟨hnum,rfl⟩,st,hrun,h⟩
    refine ⟨hnum,st,?_⟩
    cases hname : st.nameBin with
    | none => simp [hname,throw,throwThe,MonadExceptOf.throw] at h
    | some nameBin =>
      cases hdata : st.dataBin with
      | none => simp [hname,hdata,throw,throwThe,MonadExceptOf.throw] at h
      | some dataBin =>
        rw [hname,hdata] at h
        exact ⟨nameBin,dataBin,hrun,rfl,rfl,(Except.ok.inj h).symm⟩
  · rintro ⟨hnum,st,nameBin,dataBin,hrun,hname,hdata,rfl⟩
    refine ⟨_,⟨hnum,rfl⟩,st,hrun,?_⟩
    rw [hname,hdata]
    rfl

/-- Whatever `packBins` returns is the packed file. -/
theorem packBins_ok {format : Format} {models : List (Text × List UInt8)} {file : List UInt8}
    (h : packBins format (models.map Prod.fst) (models.map Prod.snd) = .ok file) :
    file = packedFile format models ∧ models ≠ [] ∧ models.length < 4294967296 ∧
      (∀ m ∈ models, Ascii m.1) ∧ ∀ e ∈ packLayout format models, e.Fits := by
  obtain ⟨hnum,st,nameBin,dataBin,hrun,hname,hdata,rfl⟩ := packBins_eq_ok.mp h
  have hpacking := (packStart_packing format models).run (Nat.le_refl _) hrun
  rw [List.take_length] at hpacking
  refine ⟨?_,?_,hnum,hpacking.ascii,hpacking.fits⟩
  · have hnames := hpacking.names
    have hsegs := hpacking.data
    rw [hname,Option.getD_some] at hnames
    rw [hdata,Option.getD_some] at hsegs
    rw [hnames,hsegs,hpacking.header]
    rfl
  · rintro rfl
    cases Except.ok.inj hrun
    cases hname

theorem packBins_exists {format : Format} {models : List (Text × List UInt8)} (hne : models ≠ [])
    (hnum : models.length < 4294967296) (hnames : ∀ m ∈ models, m.1 ≠ [] ∧ Ascii m.1)
    (hfits : ∀ e ∈ packLayout format models, e.Fits) :
    packBins format (models.map Prod.fst) (models.map Prod.snd) = .ok (packedFile format models) := by
  have hstart := packStart_packing format models
  obtain ⟨st,hrun⟩ := hstart.run_exists (Nat.le_refl _) hnames hfits
  have hpacking := hstart.run (Nat.le_refl _) hrun
  rw [List.take_length] at hpacking
  obtain ⟨dataBin,hdata⟩ := Option.isSome_iff_exists.mp (hpacking.stored hne)
  have hname : ∃ nameBin, st.nameBin = some nameBin := by
    cases models with
    | nil => exact absurd rfl hne
    | cons m ms =>
      cases hbin : st.nameBin with
      | some nameBin => exact ⟨nameBin,rfl⟩
      | none =>
        have hjoin := hpacking.names
        rw [hbin,nameSegments,List.map_cons,List.flatten_cons] at hjoin
        have hnil : tagBytes m.1 = [] := (List.append_eq_nil_iff.mp hjoin.symm).1
        exact absurd (List.map_eq_nil_iff.mp hnil) (hnames m List.mem_cons_self).1
  obtain ⟨nameBin,hname⟩ := hname
  have hok := packBins_eq_ok.mpr ⟨hnum,st,nameBin,dataBin,hrun,hname,hdata,rfl⟩
  rw [hok,(packBins_ok hok).1]

end Esp32Ipc.Detect
