/-
  Joining adjacent affine layers changes nothing that an evaluation shows.

  PROGRAM.  `Net.coalesce` walks over the layers, holds a run of affine ones back, and lets the run
  out as one layer when it meets a layer of another kind or the end (`joinRuns`).

  1. **Expansion** — every layer that comes out stands for a block of the layers that went in:
     itself, or the members it was fused of (`Layer.Expands`).  The blocks in a row are the layers
     that went in (`expandsTo_joinRuns`); from that alone the result fits together, takes the same
     inputs and repeats no index.

  2. **Walks** — the crux is `foldlM_joinRuns`.  Whatever goes through an affine layer stage by
     stage (`Stagewise`) cannot tell a run from its join, because the stages of the join are those
     of the run in a row.  Concrete evaluation is such a walk, and so is replay.

  3. **Records** — what a pass records of a layer are its branches at what the layers before it
     give (`record_of_pass`).  A layer with branches is never joined, and the layers before it give
     the same by 2, so its record is the same.

  Nothing here is special to exact numbers.
-/
import Perturb.Proofs.Net.Exactness

namespace Perturb

/-- Neighbours in a chain, listed as pairs, are related. -/
theorem zip_of_isChain {α : Type} {R : α → α → Prop} {a : α} {l : List α}
    (h : (a :: l).IsChain R) : ∀ p ∈ List.zip (a :: l) l, R p.1 p.2 := by
  induction l generalizing a with
  | nil =>
    intro p hp
    cases hp
  | cons b l ih =>
    obtain ⟨hab, htail⟩ := List.isChain_cons_cons.1 h
    intro p hp
    rcases List.mem_cons.1 hp with rfl | hp
    · exact hab
    · exact ih htail p hp

namespace AffineLayer

variable {K : Type}

/-- The last stage of several layers is that of the last one. -/
theorem getLast?_stagesOfAll (l : AffineLayer K) (ls : List (AffineLayer K)) :
    (stagesOfAll (l :: ls)).getLast? = some ((l :: ls).getLast (List.cons_ne_nil l ls)).last := by
  induction ls generalizing l with
  | nil =>
    rw [stagesOfAll, stagesOfAll, List.append_nil]
    exact l.getLast?_stages
  | cons m ls ih =>
    rw [stagesOfAll, List.getLast?_append, ih m, List.getLast_cons (List.cons_ne_nil m ls)]
    rfl

/-- Several layers as one end as the last of them does. -/
theorem last_fused (first : AffineLayer K) (rest : List (AffineLayer K)) :
    (fused first rest).last = ((first :: rest).getLast (List.cons_ne_nil first rest)).last := by
  have hlast := (fused first rest).getLast?_stages
  have hall : (fused first rest).stages = stagesOfAll (first :: rest) := by
    rw [stages, stagesOfAll]
  rw [hall, getLast?_stagesOfAll] at hlast
  exact (Option.some.inj hlast).symm

end AffineLayer

namespace Layer

variable {K : Type}

/-- Affine layers that fit together can be fused. -/
theorem fuse_of_isChain {first : AffineLayer K} {rest : List (AffineLayer K)}
    (h : ((first :: rest).map Layer.affine).IsChain fun a b => a.outDim = b.inDim) :
    fuse ((first :: rest).map .affine) = .ok (.affine (.fused first rest)) := by
  have haffine : ((first :: rest).map (Layer.affine (K := K))).find? (fun l => !l.isAffine) =
      none := by
    rw [List.find?_eq_none]
    intro l hl
    obtain ⟨a, -, rfl⟩ := List.mem_map.1 hl
    exact Bool.false_ne_true
  have hfit : (List.zip ((first :: rest).map (Layer.affine (K := K)))
      (rest.map Layer.affine)).find? (fun p => p.1.outDim != p.2.inDim) = none := by
    rw [List.find?_eq_none]
    intro p hp hne
    exact bne_iff_ne.1 hne (zip_of_isChain h p hp)
  have hmembers : (rest.map Layer.affine).filterMap affine? = rest := by
    rw [List.filterMap_map]
    exact List.filterMap_some
  rw [List.map_cons] at haffine hfit ⊢
  unfold fuse
  simp only [haffine, affine?]
  split
  · rename_i hmisfit
    cases hmisfit.symm.trans hfit
  · rw [hmembers]

/-! ## What a layer stands for -/

/-- What a layer stands for once runs have been joined: itself, or the members, two or more, that
    were fused into it. -/
inductive Expands : Layer K → List (Layer K) → Prop
  | kept (l : Layer K) : Expands l [l]
  | joined {a : AffineLayer K} (several : 2 ≤ a.members.length)
      (fused : fuse (a.members.map .affine) = .ok (.affine a)) :
      Expands (.affine a) (a.members.map .affine)

/-- Layers stand for others if the blocks they stand for, in a row, are those others. -/
def ExpandsTo (ls ms : List (Layer K)) : Prop :=
  ∃ blocks, List.Forall₂ Expands ls blocks ∧ blocks.flatten = ms

namespace Expands

/-- A layer begins as the first one it stands for does. -/
theorem head {l : Layer K} {ms : List (Layer K)} (h : Expands l ms) :
    ∃ m rest, ms = m :: rest ∧ l.index = m.index ∧ l.inDim = m.inDim := by
  cases h with
  | kept => exact ⟨l, [], rfl, rfl, rfl⟩
  | @joined a several fused =>
    cases a with
    | stage s => cases several
    | fused first rest => exact ⟨.affine first, rest.map .affine, rfl, rfl, rfl⟩

/-- A layer ends as the last one it stands for does. -/
theorem last {l : Layer K} {ms : List (Layer K)} (h : Expands l ms) :
    ∃ m, ms.getLast? = some m ∧ l.outDim = m.outDim := by
  cases h with
  | kept => exact ⟨l, rfl, rfl⟩
  | @joined a several fused =>
    cases a with
    | stage s => cases several
    | fused first rest =>
      refine ⟨.affine ((first :: rest).getLast (List.cons_ne_nil first rest)), ?_, ?_⟩
      · rw [AffineLayer.members, List.getLast?_map,
          List.getLast?_eq_some_getLast (List.cons_ne_nil first rest)]
        rfl
      · show (AffineLayer.fused first rest).last.outDim = _
        rw [AffineLayer.last_fused]
        rfl

end Expands

namespace ExpandsTo

theorem nil : ExpandsTo ([] : List (Layer K)) [] := ⟨[], .nil, rfl⟩

theorem single {l : Layer K} {ms : List (Layer K)} (h : Expands l ms) : ExpandsTo [l] ms :=
  ⟨[ms], .cons h .nil, by rw [List.flatten_cons, List.flatten_nil, List.append_nil]⟩

theorem append {ls ls' ms ms' : List (Layer K)} (h : ExpandsTo ls ms) (h' : ExpandsTo ls' ms') :
    ExpandsTo (ls ++ ls') (ms ++ ms') := by
  obtain ⟨blocks, hblocks, rfl⟩ := h
  obtain ⟨blocks', hblocks', rfl⟩ := h'
  exact ⟨blocks ++ blocks', List.rel_append hblocks hblocks', List.flatten_append⟩

/-- Layers begin as those they stand for do. -/
theorem head {ls ms : List (Layer K)} {m : Layer K} (h : ExpandsTo ls (m :: ms)) :
    ∃ l rest, ls = l :: rest ∧ l.inDim = m.inDim := by
  obtain ⟨blocks, hblocks, hflat⟩ := h
  cases hblocks with
  | nil => cases hflat
  | @cons l block rest blocks hl hrest =>
    obtain ⟨m', tail, rfl, -, hin⟩ := hl.head
    cases hflat
    exact ⟨l, rest, rfl, hin⟩

/-- The indices of layers are among those of what they stand for. -/
theorem indices {ls ms : List (Layer K)} (h : ExpandsTo ls ms) :
    (ls.map index).Sublist (ms.map index) := by
  obtain ⟨blocks, hblocks, rfl⟩ := h
  induction hblocks with
  | nil => exact List.Sublist.refl _
  | @cons l block ls blocks hl hrest ih =>
    obtain ⟨m, tail, rfl, hindex, -⟩ := hl.head
    rw [List.flatten_cons, List.cons_append, List.map_cons, List.map_cons, List.map_append, hindex]
    exact (ih.trans (List.sublist_append_right _ _)).cons_cons _

/-- Layers fit together if what they stand for does. -/
theorem fits {ls ms : List (Layer K)} (h : ExpandsTo ls ms)
    (hfit : ms.IsChain fun a b => a.outDim = b.inDim) :
    ls.IsChain fun a b => a.outDim = b.inDim := by
  obtain ⟨blocks, hblocks, rfl⟩ := h
  induction hblocks with
  | nil => exact List.isChain_nil
  | @cons l block ls blocks hl hrest ih =>
    rw [List.flatten_cons, List.isChain_append] at hfit
    obtain ⟨-, htail, hjoint⟩ := hfit
    -- what the layer gives, its last member gives; what the next takes, its first member takes
    cases hrest with
    | nil => exact List.isChain_singleton l
    | @cons l' block' ls' blocks' hl' hrest' =>
      obtain ⟨m, hm, hout⟩ := hl.last
      obtain ⟨m', tail, rfl, -, hin⟩ := hl'.head
      refine List.isChain_cons_cons.2 ⟨?_, ih htail⟩
      rw [hout, hin]
      exact hjoint m hm m' rfl

end ExpandsTo

end Layer

namespace Net

variable {K : Type}

/-! ## Joining runs -/

/-- An affine layer that is met goes to the end of the run. -/
theorem run_append (run : List (AffineLayer K)) (a : AffineLayer K) (ls : List (Layer K)) :
    run.map Layer.affine ++ .affine a :: ls = (run ++ [a]).map Layer.affine ++ ls := by
  rw [List.map_append, List.append_assoc]
  rfl

theorem isAffine_of_not {l : Layer K} (h : ∀ a, l = .affine a → False) : l.isAffine = false := by
  cases l with
  | affine a => exact absurd rfl (h a)
  | relu u => rfl
  | maxPool m => rfl

/-- A layer of another kind lets out the run before it. -/
theorem joinRuns_cons {l : Layer K} (hl : l.isAffine = false) (run : List (AffineLayer K))
    (ls : List (Layer K)) : joinRuns run (l :: ls) = joined run ++ l :: joinRuns [] ls := by
  cases l with
  | affine a => cases hl
  | relu u => rfl
  | maxPool m => rfl

/-- What comes before a layer of another kind and what comes after are joined apart. -/
theorem joinRuns_split {l : Layer K} (hl : l.isAffine = false) (run : List (AffineLayer K))
    (pre post : List (Layer K)) :
    joinRuns run (pre ++ l :: post) = joinRuns run pre ++ l :: joinRuns [] post := by
  fun_induction joinRuns run pre with
  | case1 run => exact joinRuns_cons hl run post
  | case2 run a pre ih => exact ih
  | case3 run m pre hm ih =>
    rw [List.cons_append, joinRuns_cons (isAffine_of_not hm), ih, List.append_assoc,
      List.cons_append]

/-- What is let out of a run is affine. -/
theorem isAffine_of_mem_joined {l : Layer K} {run : List (AffineLayer K)} (h : l ∈ joined run) :
    l.isAffine = true := by
  match run, h with
  | [a], h =>
    rw [List.mem_singleton.1 h]
    rfl
  | first :: second :: rest, h =>
    rw [List.mem_singleton.1 h]
    rfl

/-- Layers of other kinds come out as they went in. -/
theorem mem_joinRuns_iff {l : Layer K} (hl : l.isAffine = false) (run : List (AffineLayer K))
    (ls : List (Layer K)) : l ∈ joinRuns run ls ↔ l ∈ ls := by
  have hout : ∀ run, l ∉ joined run := fun run h =>
    Bool.false_ne_true (hl.symm.trans (isAffine_of_mem_joined h))
  fun_induction joinRuns run ls with
  | case1 run => exact iff_of_false (hout run) List.not_mem_nil
  | case2 run a ls ih =>
    have hne : l ≠ .affine a := by
      rintro rfl
      cases hl
    rw [List.mem_cons, or_iff_right hne]
    exact ih
  | case3 run m ls hm ih =>
    rw [List.mem_append, or_iff_right (hout run), List.mem_cons, List.mem_cons]
    exact or_congr_right ih

/-- A run that fits together is let out as a layer that stands for it. -/
theorem expandsTo_joined {run : List (AffineLayer K)}
    (hfit : (run.map Layer.affine).IsChain fun a b => a.outDim = b.inDim) :
    Layer.ExpandsTo (joined run) (run.map .affine) := by
  match run, hfit with
  | [], _ => exact .nil
  | [a], _ => exact .single (.kept (.affine a))
  | first :: second :: rest, hfit =>
    exact .single (.joined (a := .fused first (second :: rest))
      (Nat.le_add_left 2 rest.length) (Layer.fuse_of_isChain hfit))

/-- **Expansion.**  The layers that come out stand for those that went in. -/
theorem expandsTo_joinRuns {run : List (AffineLayer K)} {ls : List (Layer K)}
    (hfit : (run.map Layer.affine ++ ls).IsChain fun a b => a.outDim = b.inDim) :
    Layer.ExpandsTo (joinRuns run ls) (run.map .affine ++ ls) := by
  fun_induction joinRuns run ls with
  | case1 run =>
    rw [List.append_nil] at hfit ⊢
    exact expandsTo_joined hfit
  | case2 run a ls ih =>
    rw [run_append] at hfit ⊢
    exact ih hfit
  | case3 run l ls hl ih =>
    obtain ⟨hrun, htail, -⟩ := List.isChain_append.1 hfit
    exact (expandsTo_joined hrun).append
      ((Layer.ExpandsTo.single (.kept l)).append (ih htail.tail))

/-- No two adjacent layers are both affine. -/
def Apart (ls : List (Layer K)) : Prop :=
  ls.IsChain fun a b => a.isAffine = false ∨ b.isAffine = false

/-- No two affine layers that come out are adjacent. -/
theorem joinRuns_apart (run : List (AffineLayer K)) (ls : List (Layer K)) :
    Apart (joinRuns run ls) := by
  fun_induction joinRuns run ls with
  | case1 run =>
    match run with
    | [] => exact List.isChain_nil
    | [a] => exact List.isChain_singleton _
    | first :: second :: rest => exact List.isChain_singleton _
  | case2 run a ls ih => exact ih
  | case3 run l ls hl ih =>
    have hl := isAffine_of_not hl
    have htail : Apart (l :: joinRuns [] ls) := List.isChain_cons.2 ⟨fun _ _ => .inl hl, ih⟩
    match run with
    | [] => exact htail
    | [a] => exact List.isChain_cons_cons.2 ⟨.inr hl, htail⟩
    | first :: second :: rest => exact List.isChain_cons_cons.2 ⟨.inr hl, htail⟩

/-- A run without adjacent affine layers is no more than one layer. -/
theorem joined_eq_self {run : List (AffineLayer K)} (h : Apart (run.map Layer.affine)) :
    joined run = run.map .affine := by
  match run, h with
  | [], _ => rfl
  | [a], _ => rfl
  | first :: second :: rest, h =>
    rcases (List.isChain_cons_cons.1 h).1 with hne | hne
    · cases hne
    · cases hne

/-- Where no two affine layers are adjacent there is nothing to join. -/
theorem joinRuns_eq_self {run : List (AffineLayer K)} {ls : List (Layer K)}
    (h : Apart (run.map Layer.affine ++ ls)) : joinRuns run ls = run.map .affine ++ ls := by
  fun_induction joinRuns run ls with
  | case1 run =>
    rw [List.append_nil] at h ⊢
    exact joined_eq_self h
  | case2 run a ls ih =>
    rw [run_append] at h ⊢
    exact ih h
  | case3 run l ls hl ih =>
    obtain ⟨hrun, htail, -⟩ := List.isChain_append.1 h
    rw [joined_eq_self hrun, ih htail.tail]
    rfl

/-! ## Walks -/

/-- A walk over layers that goes through an affine layer stage by stage. -/
def Stagewise {β : Type} (f : β → Layer K → Outcome β) (g : β → Stage K → Outcome β) : Prop :=
  ∀ b a, f b (.affine a) = a.stages.foldlM g b

/-- A stagewise walk over a run goes through its stages in a row. -/
theorem Stagewise.run {β : Type} {f : β → Layer K → Outcome β} {g : β → Stage K → Outcome β}
    (hf : Stagewise f g) (run : List (AffineLayer K)) (b : β) :
    (run.map Layer.affine).foldlM f b = (AffineLayer.stagesOfAll run).foldlM g b := by
  induction run generalizing b with
  | nil => rfl
  | cons a run ih =>
    rw [List.map_cons, List.foldlM_cons, hf, AffineLayer.stagesOfAll, List.foldlM_append]
    exact bind_congr fun c => ih c

/-- A run that is let out is walked over as the run. -/
theorem Stagewise.joined {β : Type} {f : β → Layer K → Outcome β} {g : β → Stage K → Outcome β}
    (hf : Stagewise f g) (run : List (AffineLayer K)) (b : β) :
    (joined run).foldlM f b = (run.map Layer.affine).foldlM f b := by
  match run with
  | [] => rfl
  | [a] => rfl
  | first :: second :: rest =>
    rw [hf.run, AffineLayer.stagesOfAll, ← AffineLayer.stages, ← hf]
    exact bind_pure _

/-- **A walk cannot tell.**  A stagewise walk over the layers that come out does what it does over
    those that went in. -/
theorem foldlM_joinRuns {β : Type} {f : β → Layer K → Outcome β} {g : β → Stage K → Outcome β}
    (hf : Stagewise f g) (run : List (AffineLayer K)) (ls : List (Layer K)) (b : β) :
    (joinRuns run ls).foldlM f b = (run.map Layer.affine ++ ls).foldlM f b := by
  fun_induction joinRuns run ls generalizing b with
  | case1 run =>
    rw [List.append_nil]
    exact hf.joined run b
  | case2 run a ls ih =>
    rw [run_append]
    exact ih b
  | case3 run l ls hl ih =>
    rw [List.foldlM_append, List.foldlM_append, hf.joined]
    refine bind_congr fun c => ?_
    rw [List.foldlM_cons, List.foldlM_cons]
    exact bind_congr fun d => ih d

/-- Layers that fit together do not misfit. -/
theorem misfit?_of_isChain {ls : List (Layer K)}
    (h : ls.IsChain fun a b => a.outDim = b.inDim) : Layer.misfit? ls = none := by
  induction ls with
  | nil => rfl
  | cons a ls ih =>
    cases ls with
    | nil => rfl
    | cons b ls =>
      obtain ⟨hab, htail⟩ := List.isChain_cons_cons.1 h
      rw [Layer.misfit?, if_pos hab]
      exact ih htail

variable [Scalar K]

/-- Concrete evaluation is a stagewise walk. -/
theorem stagewise_values :
    Stagewise (fun x (l : Layer K) => l.values x) (fun x s => s.values x) := fun _ _ => rfl

/-- Replaying layers is a walk over them. -/
theorem replay_layers_eq {S : Type} [Source S K] {n : Nat} (trace : Trace) (ratio : K)
    (x : List (Affine K n)) (r : Replay S K n) (ls : List (Layer K)) :
    Replay.layers trace ratio x r ls =
      ls.foldlM (fun xr l => Replay.layer trace ratio l xr.1 xr.2) (x, r) := by
  induction ls generalizing x r with
  | nil => rfl
  | cons l ls ih =>
    rw [Replay.layers, List.foldlM_cons]
    exact bind_congr fun xr => ih xr.1 xr.2

/-- Replay is a stagewise walk: an affine layer leaves nothing behind and draws nothing. -/
theorem stagewise_replay {S : Type} [Source S K] {n : Nat} (trace : Trace) (ratio : K) :
    Stagewise (fun (xr : List (Affine K n) × Replay S K n) l =>
        Replay.layer trace ratio l xr.1 xr.2)
      (fun xr s => do
        let y ← s.terms xr.1
        .ok (y, xr.2)) := by
  rintro ⟨x, r⟩ a
  show (a.stages.foldlM (fun x s => s.terms x) x >>= fun out => Except.ok (out, r)) = _
  induction a.stages generalizing x with
  | nil => rfl
  | cons s ss ih =>
    rw [List.foldlM_cons, List.foldlM_cons, bind_assoc]
    show _ = (s.terms x >>= fun y => Except.ok (y, r)) >>= _
    rw [bind_assoc]
    exact bind_congr fun y => ih y

/-! ## Records -/

/-- What a pass records of a layer are its branches at what the layers before it give. -/
theorem record_of_pass {pre post : List (Layer K)} {l : Layer K}
    (hidx : ((pre ++ l :: post).map Layer.index).Nodup) {x ys : List K} {t trace : Trace}
    (h : pass x t (pre ++ l :: post) = .ok (ys, trace)) :
    ∃ z, pre.foldlM (fun x l => l.values x) x = .ok z ∧
      trace.find? l.index = some (l.branches z) := by
  induction pre generalizing x t with
  | nil =>
    rw [List.nil_append, pass] at h
    obtain ⟨y, -, hrest⟩ := Outcome.bind_ok_iff.1 h
    rw [List.nil_append, List.map_cons, List.nodup_cons] at hidx
    exact ⟨x, rfl, by rw [find?_of_pass hrest hidx.1, Trace.find?_record_self]⟩
  | cons m pre ih =>
    rw [List.cons_append, pass] at h
    obtain ⟨y, hy, hrest⟩ := Outcome.bind_ok_iff.1 h
    rw [List.cons_append, List.map_cons, List.nodup_cons] at hidx
    obtain ⟨z, hz, hfind⟩ := ih hidx.2 hrest
    refine ⟨z, ?_, hfind⟩
    rw [List.foldlM_cons, hy]
    exact hz

/-! ## Networks -/

/-- A network is made of its own layers and crop. -/
theorem make_self (net : Net K) : make net.layers net.crop = .ok net := by
  obtain ⟨first, rest, crop, hfits, hcrop⟩ := net
  unfold make
  simp only [layers]
  split
  · rename_i h
    rw [hfits] at h
    cases h
  · rw [dif_pos hcrop]

/-- Networks that no evaluation tells apart: they give the same at every point, they branch in the
    same layers and record the same of them, and along any trace their replays give the same terms
    and leave the same constraints behind, in the same order, with the same draws.  Where one fails,
    the other fails with the same fault. -/
structure Indistinguishable (a b : Net K) : Prop where
  values : ∀ x, a.values x = b.values x
  branching : ∀ l : Layer K, l.isAffine = false → (l ∈ a.layers ↔ l ∈ b.layers)
  records : ∀ x, (∃ fault, a.traced x = .error fault ∧ b.traced x = .error fault) ∨
    ∃ ys t t', a.traced x = .ok (ys, t) ∧ b.traced x = .ok (ys, t') ∧
      ∀ l ∈ a.layers, l.isAffine = false →
        ∃ r, t.find? l.index = some r ∧ t'.find? l.index = some r
  replay : ∀ {S : Type} [Source S K] {n : Nat} (trace : Trace) (ratio : K)
    (ts : List (Affine K n)) (r : Replay S K n),
    a.replay trace ratio ts r = b.replay trace ratio ts r

/-- Runs of two networks that give the same at a point record the same of a layer that stands in
    both behind layers that give the same. -/
theorem record_eq {pre post pre' post' : List (Layer K)} {l : Layer K}
    (hidx : ((pre ++ l :: post).map Layer.index).Nodup)
    (hidx' : ((pre' ++ l :: post').map Layer.index).Nodup) {x ys ys' : List K} {t t' : Trace}
    (hpre : pre'.foldlM (fun x l => l.values x) x = pre.foldlM (fun x l => l.values x) x)
    (h : pass x .empty (pre ++ l :: post) = .ok (ys, t))
    (h' : pass x .empty (pre' ++ l :: post') = .ok (ys', t')) :
    ∃ r, t.find? l.index = some r ∧ t'.find? l.index = some r := by
  obtain ⟨z, hz, hfind⟩ := record_of_pass hidx h
  obtain ⟨z', hz', hfind'⟩ := record_of_pass hidx' h'
  rw [hpre, hz] at hz'
  cases hz'
  exact ⟨_, hfind, hfind'⟩

/-- A network of the joined layers of another cannot be told apart from it. -/
theorem indistinguishable_of_joined {net fused : Net K}
    (hidx : (net.layers.map Layer.index).Nodup) (hidx' : (fused.layers.map Layer.index).Nodup)
    (hlayers : fused.layers = joinRuns [] net.layers) : Indistinguishable net fused := by
  have hwalk : ∀ (ls : List (Layer K)) (x : List K),
      (joinRuns [] ls).foldlM (fun x l => l.values x) x = ls.foldlM (fun x l => l.values x) x :=
    fun ls x => foldlM_joinRuns stagewise_values [] ls x
  have hgive : ∀ x, (net.traced x).map Prod.fst = (fused.traced x).map Prod.fst := by
    intro x
    unfold traced
    rw [map_fst_pass, map_fst_pass, hlayers, hwalk]
  refine ⟨fun x => ?_, fun l hl => ?_, fun x => ?_, fun {S} _ {n} trace ratio ts r => ?_⟩
  · show _ = fused.layers.foldlM _ x
    rw [hlayers, hwalk]
    rfl
  · rw [hlayers, mem_joinRuns_iff hl]
  · have hgive := hgive x
    cases hnet : net.traced x with
    | error fault =>
      cases hfused : fused.traced x with
      | error fault' =>
        rw [hnet, hfused] at hgive
        exact .inl ⟨fault, rfl, by rw [Except.error.inj hgive]⟩
      | ok p =>
        rw [hnet, hfused] at hgive
        cases hgive
    | ok p =>
      obtain ⟨ys, t⟩ := p
      rw [hnet] at hgive
      obtain ⟨⟨ys', t'⟩, hfused, hys⟩ := Outcome.map_ok_iff.1 hgive.symm
      have hys : ys' = ys := hys
      subst hys
      refine .inr ⟨ys', t, t', rfl, hfused, fun l hmem hl => ?_⟩
      obtain ⟨pre, post, hsplit⟩ := List.append_of_mem hmem
      have hsplit' : fused.layers = joinRuns [] pre ++ l :: joinRuns [] post := by
        rw [hlayers, hsplit, joinRuns_split hl]
      unfold traced at hnet hfused
      rw [hsplit] at hidx hnet
      rw [hsplit'] at hidx' hfused
      exact record_eq hidx hidx' (hwalk pre x) hnet hfused
  · unfold replay
    rw [replay_layers_eq, replay_layers_eq, hlayers,
      foldlM_joinRuns (stagewise_replay trace ratio)]
    rfl

/-- **Coalescing is unobservable.**  A network no two of whose layers share an index can be
    coalesced.  The layers of the result stand for the given ones, block by block and in order; no
    two adjacent ones are affine; no evaluation tells the two networks apart, neither at a point nor
    along a trace; and coalescing again gives the same network. -/
theorem coalesce_unobservable (net : Net K) (hidx : (net.layers.map Layer.index).Nodup) :
    ∃ fused : Net K, net.coalesce = .ok fused ∧ fused.crop = net.crop ∧
      Layer.ExpandsTo fused.layers net.layers ∧ Apart fused.layers ∧
      Indistinguishable net fused ∧ fused.coalesce = .ok fused := by
  have hfit := isChain_of_misfit? net.fits
  have hexpands : Layer.ExpandsTo (joinRuns [] net.layers) net.layers := expandsTo_joinRuns hfit
  obtain ⟨first, rest, hjoin, hin⟩ := hexpands.head
  have hfits : Layer.misfit? (first :: rest) = none := by
    rw [← hjoin]
    exact misfit?_of_isChain (hexpands.fits hfit)
  have hcrop : ∀ c ∈ net.crop, c.outDim = first.inDim := fun c hc =>
    (net.crop_fits c hc).trans hin.symm
  have hlayers : (⟨first, rest, net.crop, hfits, hcrop⟩ : Net K).layers =
      joinRuns [] net.layers := hjoin.symm
  generalize hfused : (⟨first, rest, net.crop, hfits, hcrop⟩ : Net K) = fused at hlayers
  have hsame : fused.crop = net.crop := by rw [← hfused]
  have hapart : Apart fused.layers := hlayers ▸ joinRuns_apart [] net.layers
  have hidx' : (fused.layers.map Layer.index).Nodup := by
    rw [hlayers]
    exact hidx.sublist hexpands.indices
  refine ⟨fused, ?_, hsame, hlayers ▸ hexpands, hapart,
    indistinguishable_of_joined hidx hidx' hlayers, ?_⟩
  · unfold coalesce
    rw [← hlayers, ← hsame]
    exact make_self fused
  · have hagain : joinRuns [] fused.layers = fused.layers := joinRuns_eq_self hapart
    unfold coalesce
    rw [hagain]
    exact make_self fused

/-! ### A network to look at -/

namespace Cascade

/-- Twice the value, and its opposite. -/
def spread : DenseLayer Rat := .flat 1 1 [[2], [-2]] [0, 0] rfl (by decide)

/-- Two units. -/
def units : Relu := .flat 2 2

/-- The sum of two values, and the constant one. -/
def head : DenseLayer Rat :=
  .flat 3 2 [[1, 1], [0, 0]] [0, 1] (by decide) (by decide)

/-- The network with the outputs `|2 * (x + 1)|` and `1`. -/
def net : Net Rat where
  first := .affine (.stage (.dense Ramp.shift))
  rest := [.affine (.stage (.dense spread)), .relu units, .affine (.stage (.dense head))]
  crop := none
  fits := rfl
  crop_fits := Ramp.net.crop_fits

end Cascade

/-- The first two layers of the cascade become one, the others stay; at three both networks give
    eight and one. -/
theorem coalesce_unobservable_cascade :
    ∃ fused, Cascade.net.coalesce = .ok fused ∧
      fused.layers = [.affine (.fused (.stage (.dense Ramp.shift))
        [.stage (.dense Cascade.spread)]), .relu Cascade.units,
        .affine (.stage (.dense Cascade.head))] ∧
      fused.values [3] = .ok [8, 1] ∧ fused.coalesce = .ok fused := by
  obtain ⟨fused, hfused, -, -, -, hsame, hagain⟩ :=
    coalesce_unobservable Cascade.net (by decide)
  have hlayers : Cascade.net.coalesce.map layers = .ok fused.layers := by rw [hfused]; rfl
  have hvalues : Cascade.net.values [3] = .ok [8, 1] := by decide +kernel
  exact ⟨fused, hfused, (Except.ok.inj hlayers).symm, (hsame.values [3]).symm.trans hvalues,
    hagain⟩

end Net

end Perturb
