import Dagger.Blocks

/-!
# The invariant of the block structure

Which IR blocks exist and what they hold, in every state the public operations
reach. Each block remembers which operation made it (`Origin`, a ghost field),
and `Wf` says what each kind of block holds:

* the builder and the register semantics insert into one block, an open one:
  the entry block, a call's successor, or the block of an address already
  opened;
* the blocks made for an address are the entries of the block map, and each
  keeps its placeholder `call @llvm.trap(); unreachable` until the address is
  opened;
* a call block holds its call and a branch to its successor, and only its parent
  branches to it;
* the exit block returns, through the diff block when register-set diffing is
  on; every other `ret` ends a tail call, and no other block calls the diff
  function.

`Wf` holds after the constructor and is kept by each operation and by each
primitive move of translation (`Prim`), so it holds in every reachable state.
-/

namespace Dagger

/-! ## The invariant -/

/-- The blocks the builder may be positioned in: the entry block, a call's
successor, and the block of an address once it is opened. -/
def Origin.IsOpen (opened : List UInt64) : Origin → Prop
  | .entry | .callSucc _ => True
  | .addr a => a ∈ opened
  | _ => False

/-- The block structure of every reachable state. -/
structure Wf (cfg : Config) (s : DCFunction) : Prop where
  /-- blocks not yet created are empty -/
  fresh : ∀ b, s.numBlocks ≤ b → s.blocks b = default
  /-- the builder inserts into an open block, where the register semantics is too -/
  insertPt_open : (s.blocks s.insertPt).origin.IsOpen s.opened
  rsiBB_eq : s.rsiBB = s.insertPt
  theBB_eq : ∀ b, s.theBB = some b → b = s.insertPt
  /-- the blocks made for an address are the entries of the block map, and each
  holds the placeholder until the address is opened -/
  addr : ∀ a b, (s.blocks b).origin = .addr a ↔ s.bbByAddr a = some b
  placeholder : ∀ a b, s.bbByAddr a = some b → a ∉ s.opened →
    (s.blocks b).insts = [.instr trapCall, .unreachable]
  /-- branches go to existing blocks, and to a call block only from its parent -/
  targets : ∀ b x, .br x ∈ (s.blocks b).insts →
    x < s.numBlocks ∧ ∀ p c, (s.blocks x).origin = .call p c → b = p
  /-- a call block holds its call and the branch to its successor; its parent,
  no longer current, ends with the branch to it -/
  callBBs : ∀ cb ∈ s.callBBs, ∃ p c t, (s.blocks cb).origin = .call p c ∧
    (s.blocks cb).insts = [.instr (.call t [.regSetArg]), .br c] ∧
    (s.blocks c).origin = .callSucc cb ∧ p ≠ s.insertPt ∧
    (s.blocks p).insts.getLast? = some (.br cb)
  callBBs_nodup : s.callBBs.Nodup
  exit_origin : (s.blocks s.exitBB).origin = .exit
  /-- with register-set diffing the exit block branches to the one diff block,
  which calls the diff function and returns -/
  exit_diff : cfg.opts.enableRegSetDiff = true → ∃ d args,
    (s.blocks s.exitBB).insts = [.br d] ∧
    (s.blocks d).insts = [.instr (.call .regSetDiffFunction args), .ret] ∧
    ∀ b, (s.blocks b).origin = .diffExit ↔ b = d
  /-- without it the exit block returns, and there is no diff block -/
  exit_ret : cfg.opts.enableRegSetDiff = false →
    (s.blocks s.exitBB).insts = [.ret] ∧ ∀ b, (s.blocks b).origin ≠ .diffExit
  /-- `ret` ends only the exit block, the diff block and tail calls -/
  rets : ∀ b, .ret ∈ (s.blocks b).insts →
    b = s.exitBB ∨ (s.blocks b).origin = .diffExit ∨ b ∈ s.tailCalls
  /-- only the diff block calls the diff function -/
  diffCalls : ∀ b i, .instr i ∈ (s.blocks b).insts → i.callsRegSetDiff = true →
    (s.blocks b).origin = .diffExit

namespace Wf

variable {cfg : Config} {s s' : DCFunction}

theorem map (hw : Wf cfg s) (a : UInt64) (b : Nat) (h : s.bbByAddr a = some b) :
    (s.blocks b).origin = .addr a :=
  (hw.addr a b).mpr h

theorem lt_of_origin (hw : Wf cfg s) (b : Nat) (h : (s.blocks b).origin ≠ .unused) :
    b < s.numBlocks := by
  by_contra hb
  exact h (by rw [hw.fresh b (by omega)]; rfl)

theorem insertPt_lt (hw : Wf cfg s) : s.insertPt < s.numBlocks :=
  hw.lt_of_origin _ fun h => by simpa [h, Origin.IsOpen] using hw.insertPt_open

theorem lt_of_mem (hw : Wf cfg s) {b : Nat} {x : Inst} (h : x ∈ (s.blocks b).insts) :
    b < s.numBlocks := by
  by_contra hb
  rw [hw.fresh b (by omega)] at h
  cases h

/-- Only an open block can be the insertion point. -/
theorem ne_insertPt (hw : Wf cfg s) {b : Nat} (h : ¬ (s.blocks b).origin.IsOpen s.opened) :
    b ≠ s.insertPt := fun e => h (e ▸ hw.insertPt_open)

/-- The exit block exists and is never the insertion point. -/
theorem exitBB_lt (hw : Wf cfg s) : s.exitBB < s.numBlocks :=
  hw.lt_of_origin _ (by simp [hw.exit_origin])

theorem exitBB_ne_insertPt (hw : Wf cfg s) : s.exitBB ≠ s.insertPt :=
  hw.ne_insertPt (by simp [hw.exit_origin, Origin.IsOpen])

/-- The state's other fields do not matter. -/
theorem of_shape (hw : Wf cfg s) (h : s'.shape = s.shape) : Wf cfg s' := by
  cases s; cases s'
  simp only [DCFunction.shape, Shape.mk.injEq] at h
  obtain ⟨rfl, rfl, rfl, rfl, rfl, rfl, rfl, rfl, rfl, rfl⟩ := h
  cases hw
  constructor <;> assumption

/-- Appending at the insertion point anything but a diff call or a branch to a
call block; a `ret` ends a tail call. -/
theorem append (hw : Wf cfg s) {i : Inst} {tc : List Nat} (htc : ∀ b ∈ s.tailCalls, b ∈ tc)
    (hret : i = .ret → s.insertPt ∈ tc) (hdiff : ∀ j, i = .instr j → j.callsRegSetDiff = false)
    (hbr : ∀ x, i = .br x → x < s.numBlocks ∧ ∀ p c, (s.blocks x).origin ≠ .call p c) :
    Wf cfg { s.appendInst s.insertPt i with tailCalls := tc } := by
  have hlt := hw.insertPt_lt
  have hne := @ne_insertPt _ _ hw
  constructor <;> dsimp only
  case fresh =>
    intro b hb
    rw [DCFunction.appendInst_numBlocks] at hb
    rw [DCFunction.appendInst_blocks_of_ne (by omega)]
    exact hw.fresh b hb
  case placeholder =>
    intro a b hb ha
    have hb' : b ≠ s.insertPt := hne (by simpa [hw.map a b hb, Origin.IsOpen] using ha)
    rw [DCFunction.appendInst_blocks_of_ne hb']
    exact hw.placeholder a b hb ha
  case targets =>
    intro b x hx
    simp only [DCFunction.appendInst_origin]
    rcases DCFunction.mem_appendInst_insts.mp hx with hx | ⟨rfl, rfl⟩
    · exact hw.targets b x hx
    · obtain ⟨h1, h2⟩ := hbr x rfl
      exact ⟨h1, fun p c h => absurd h (h2 p c)⟩
  case callBBs =>
    intro cb hcb
    obtain ⟨p, c, t, ho, hi, hc, hp, hl⟩ := hw.callBBs cb hcb
    refine ⟨p, c, t, by simpa using ho, ?_, by simpa using hc, hp, ?_⟩
    · rw [DCFunction.appendInst_blocks_of_ne (hne (by simp [ho, Origin.IsOpen]))]
      exact hi
    · rwa [DCFunction.appendInst_blocks_of_ne hp]
  case exit_diff =>
    intro hd
    obtain ⟨d, args, he, hd, hu⟩ := hw.exit_diff hd
    refine ⟨d, args, ?_, ?_, by simpa using hu⟩
    · rwa [DCFunction.appendInst_exitBB, DCFunction.appendInst_blocks_of_ne hw.exitBB_ne_insertPt]
    · rwa [DCFunction.appendInst_blocks_of_ne (hne (by simp [(hu d).mpr rfl, Origin.IsOpen]))]
  case exit_ret =>
    intro hd
    obtain ⟨he, hu⟩ := hw.exit_ret hd
    refine ⟨?_, by simpa using hu⟩
    rwa [DCFunction.appendInst_exitBB, DCFunction.appendInst_blocks_of_ne hw.exitBB_ne_insertPt]
  case rets =>
    intro b hb
    rcases DCFunction.mem_appendInst_insts.mp hb with hb | ⟨rfl, h⟩
    · rcases hw.rets b hb with h | h | h
      · exact .inl h
      · exact .inr (.inl (by simpa using h))
      · exact .inr (.inr (htc b h))
    · exact .inr (.inr (hret h.symm))
  case diffCalls =>
    intro b j hj hd
    rcases DCFunction.mem_appendInst_insts.mp hj with hj | ⟨rfl, h⟩
    · simpa using hw.diffCalls b j hj hd
    · simp [hdiff j h.symm] at hd
  all_goals first
    | simpa using hw.insertPt_open | exact hw.rsiBB_eq | exact hw.theBB_eq
    | simpa using hw.addr | exact hw.callBBs_nodup | simpa using hw.exit_origin

/-- `getOrCreateBasicBlock` keeps the invariant, and its block is the one of the
address. -/
theorem getOrCreate (hw : Wf cfg s) (a : UInt64) :
    Wf cfg (getOrCreateBasicBlock a s).2 ∧
      (getOrCreateBasicBlock a s).2.bbByAddr a = some (getOrCreateBasicBlock a s).1 := by
  refine ⟨?_, getOrCreateBasicBlock_map s a⟩
  cases hnone : s.bbByAddr a with
  | some b => rwa [getOrCreateBasicBlock_of_some hnone]
  | none =>
    rw [getOrCreateBasicBlock_of_none hnone]
    have hlt := hw.insertPt_lt
    have old : ∀ {b}, b < s.numBlocks → b ≠ s.numBlocks := fun h => by omega
    constructor <;> dsimp only
    case fresh =>
      intro b hb'
      simpa [Function.update_apply, show b ≠ s.numBlocks by omega] using hw.fresh b (by omega)
    case insertPt_open => simpa [Function.update_apply, old hlt] using hw.insertPt_open
    case addr =>
      intro a' b
      by_cases hb : b = s.numBlocks
      · subst hb
        have hn : s.bbByAddr a' ≠ some s.numBlocks := fun h => by
          simpa [hw.fresh _ (Nat.le_refl _)] using hw.map a' _ h
        by_cases ha : a' = a
        · subst ha; simp
        · simp [Function.update_apply, ha, hn, Ne.symm ha]
      · by_cases ha : a' = a
        · subst ha
          simp only [Function.update_apply, hb, if_true, if_false, Option.some.injEq]
          constructor
          · intro h; rw [(hw.addr a' b).mp h] at hnone; cases hnone
          · intro h; exact absurd h.symm hb
        · simpa [Function.update_apply, hb, ha] using hw.addr a' b
    case placeholder =>
      intro a' b h ho
      by_cases ha : a' = a
      · subst ha; simp at h; subst h; simp
      · simp only [Function.update_apply, ha, if_false] at h
        simpa [Function.update_apply, old (hw.lt_of_origin b (by simp [hw.map a' b h]))]
          using hw.placeholder a' b h ho
    case targets =>
      intro b x hx
      by_cases hb : b = s.numBlocks
      · subst hb; simp at hx
      · simp only [Function.update_apply, hb, if_false] at hx
        obtain ⟨h1, h2⟩ := hw.targets b x hx
        exact ⟨by omega, by simpa [Function.update_apply, old h1] using h2⟩
    case callBBs =>
      intro cb hcb
      obtain ⟨p, c, t, ho, hi, hc, hp, hl⟩ := hw.callBBs cb hcb
      have hcb' := old (hw.lt_of_origin cb (by simp [ho]))
      have hc' := old (hw.lt_of_origin c (by simp [hc]))
      have hp' := old (hw.lt_of_mem (List.mem_of_getLast?_eq_some hl))
      exact ⟨p, c, t, by simpa [Function.update_apply, hcb'], by simpa [Function.update_apply, hcb'],
        by simpa [Function.update_apply, hc'], hp, by simpa [Function.update_apply, hp']⟩
    case exit_origin =>
      simpa [Function.update_apply, old hw.exitBB_lt] using hw.exit_origin
    case exit_diff =>
      intro hd
      obtain ⟨d, args, he, hd, hu⟩ := hw.exit_diff hd
      refine ⟨d, args, ?_, ?_, fun b => ?_⟩
      · simpa [Function.update_apply, old hw.exitBB_lt]
      · simpa [Function.update_apply, old (hw.lt_of_origin d (by simp [(hu d).mpr rfl]))]
      · by_cases hb : b = s.numBlocks
        · subst hb
          have e : (s.blocks s.numBlocks).origin = .unused := by rw [hw.fresh _ (Nat.le_refl _)]; rfl
          simpa [Function.update_apply, e] using hu s.numBlocks
        · simpa [Function.update_apply, hb] using hu b
    case exit_ret =>
      intro hd
      obtain ⟨he, hu⟩ := hw.exit_ret hd
      refine ⟨?_, fun b => ?_⟩
      · simpa [Function.update_apply, old hw.exitBB_lt]
      · by_cases hb : b = s.numBlocks
        · simp [Function.update_apply, hb]
        · simpa [Function.update_apply, hb] using hu b
    case rets =>
      intro b hr
      by_cases hb : b = s.numBlocks
      · subst hb; simp at hr
      · simp only [Function.update_apply, hb, if_false] at hr ⊢
        exact hw.rets b hr
    case diffCalls =>
      intro b i hi hd
      by_cases hb : b = s.numBlocks
      · subst hb; simp [trapCall] at hi; subst hi; cases hd
      · simp only [Function.update_apply, hb, if_false] at hi ⊢
        exact hw.diffCalls b i hi hd
    all_goals first | exact hw.rsiBB_eq | exact hw.theBB_eq | exact hw.callBBs_nodup

/-- `insertCallBB` keeps the invariant, unless the callee is the diff function. -/
theorem insertCallBB (hw : Wf cfg s) {t : Value} {cb : Nat}
    (ht : (Instr.call t [.regSetArg]).callsRegSetDiff = false)
    (h : Dagger.insertCallBB t s = some (cb, s')) : Wf cfg s' := by
  have hlt := hw.insertPt_lt
  obtain ⟨-, rfl, hs⟩ := insertCallBB_eq_some h hlt
  have hne := @ne_insertPt _ _ hw
  -- what became of each block
  have e1 : s'.blocks (s.numBlocks + 1) = ⟨callSuccName s s.insertPt, [], .callSucc s.numBlocks⟩ := by
    simp [hs]
  have e0 : (s'.blocks s.numBlocks).insts = [.instr (.call t [.regSetArg]), .br (s.numBlocks + 1)] ∧
      (s'.blocks s.numBlocks).origin = .call s.insertPt (s.numBlocks + 1) := by simp [hs]
  have ec : (s'.blocks s.insertPt).insts = (s.blocks s.insertPt).insts ++ [.br s.numBlocks] := by
    simp [hs, show s.insertPt ≠ s.numBlocks + 1 by omega, show s.insertPt ≠ s.numBlocks by omega]
  have eo : ∀ {b}, b ≠ s.insertPt → b < s.numBlocks → s'.blocks b = s.blocks b := by
    intro b h1 h2
    simp [hs, h1, show b ≠ s.numBlocks + 1 by omega, show b ≠ s.numBlocks by omega]
  have oo : ∀ {b}, b < s.numBlocks → (s'.blocks b).origin = (s.blocks b).origin := by
    intro b h2
    simp only [hs, show b ≠ s.numBlocks + 1 by omega, show b ≠ s.numBlocks by omega, if_false]
    split <;> rfl
  have eb : ∀ {b}, b ≠ s.numBlocks + 1 → b ≠ s.numBlocks → b ≠ s.insertPt →
      s'.blocks b = s.blocks b := by
    intro b h1 h2 h3
    simp [hs, h1, h2, h3]
  have ln := hw.lt_of_origin
  have mem : ∀ {b x}, x ∈ (s'.blocks b).insts → x ∈ (s.blocks b).insts ∨
      b = s.numBlocks ∧ (x = .instr (.call t [.regSetArg]) ∨ x = .br (s.numBlocks + 1)) ∨
      b = s.insertPt ∧ x = .br s.numBlocks := by
    intro b x hx
    by_cases h1 : b = s.numBlocks + 1
    · subst h1; simp [e1] at hx
    by_cases h0 : b = s.numBlocks
    · subst h0; exact .inr (.inl ⟨rfl, by simpa [e0.1] using hx⟩)
    by_cases hc : b = s.insertPt
    · subst hc; rw [ec] at hx
      rcases List.mem_append.mp hx with hx | hx
      · exact .inl hx
      · exact .inr (.inr ⟨rfl, List.mem_singleton.mp hx⟩)
    · rw [eb h1 h0 hc] at hx; exact .inl hx
  have onew : ∀ b, s.numBlocks ≤ b → (s'.blocks b).origin = .call s.insertPt (s.numBlocks + 1) ∨
      (s'.blocks b).origin = .callSucc s.numBlocks ∨ (s'.blocks b).origin = .unused := by
    intro b hb
    by_cases h1 : b = s.numBlocks + 1
    · subst h1; simp [e1]
    by_cases h0 : b = s.numBlocks
    · subst h0; simp [e0.2]
    · rw [eb h1 h0 (by omega), hw.fresh b hb]; simp
  have fields : s'.numBlocks = s.numBlocks + 2 ∧ s'.bbByAddr = s.bbByAddr ∧ s'.exitBB = s.exitBB ∧
      s'.callBBs = s.callBBs ++ [s.numBlocks] ∧ s'.theBB = some (s.numBlocks + 1) ∧
      s'.insertPt = s.numBlocks + 1 ∧ s'.rsiBB = s.numBlocks + 1 ∧ s'.opened = s.opened ∧
      s'.tailCalls = s.tailCalls := by
    subst hs; simp
  obtain ⟨fn, fm, fx, fc, fb, fi, fr, fo, ft⟩ := fields
  constructor <;> try simp only [fn, fm, fx, fc, fb, fi, fr, fo, ft]
  case fresh =>
    intro b hb
    rw [eb (by omega) (by omega) (by omega)]
    exact hw.fresh b (by omega)
  case insertPt_open => simp [e1, Origin.IsOpen]
  case addr =>
    intro a b
    by_cases hb : b < s.numBlocks
    · rw [oo hb]; exact hw.addr a b
    · constructor
      · intro h; rcases onew b (by omega) with h' | h' | h' <;> rw [h'] at h <;> cases h
      · intro h; exact absurd (ln b (by simp [hw.map a b h])) hb
  case placeholder =>
    intro a b hb ha
    have hb' := hw.map a b hb
    rw [eo (hne (by simpa [hb', Origin.IsOpen] using ha)) (ln b (by simp [hb']))]
    exact hw.placeholder a b hb ha
  case targets =>
    intro b x hx
    rcases mem hx with hx | ⟨rfl, h | h⟩ | ⟨rfl, h⟩
    · obtain ⟨h1, h2⟩ := hw.targets b x hx
      exact ⟨by omega, by rw [oo h1]; exact h2⟩
    · cases h
    · cases h; simp [e1]
    · cases h; simp [e0.2]
  case callBBs =>
    intro cb hcb
    rcases List.mem_append.mp hcb with hcb | hcb
    · obtain ⟨p, c, t', ho, hi, hc, hp, hl⟩ := hw.callBBs cb hcb
      have hcb' := ln cb (by simp [ho])
      have hp' := hw.lt_of_mem (List.mem_of_getLast?_eq_some hl)
      exact ⟨p, c, t', by rw [oo hcb', ho], by rw [eo (hne (by simp [ho, Origin.IsOpen])) hcb', hi],
        by rw [oo (ln c (by simp [hc])), hc], by omega, by rw [eo hp hp', hl]⟩
    · simp only [List.mem_singleton] at hcb; subst hcb
      exact ⟨s.insertPt, s.numBlocks + 1, t, e0.2, e0.1, by simp [e1], by omega, by simp [ec]⟩
  case callBBs_nodup =>
    refine List.pairwise_append.mpr ⟨hw.callBBs_nodup, List.pairwise_singleton _ _, ?_⟩
    intro x hx y hy e
    simp only [List.mem_singleton] at hy; subst hy e
    obtain ⟨p, c, t', ho, -⟩ := hw.callBBs _ hx
    exact absurd (ln _ (by simp [ho])) (Nat.lt_irrefl _)
  case exit_origin => rw [oo hw.exitBB_lt, hw.exit_origin]
  case exit_diff =>
    intro hd
    obtain ⟨d, args, he, hd, hu⟩ := hw.exit_diff hd
    have hd' := ln d (by simp [(hu d).mpr rfl])
    refine ⟨d, args, ?_, ?_, fun b => ?_⟩
    · rw [eo hw.exitBB_ne_insertPt hw.exitBB_lt, he]
    · rw [eo (hne (by simp [(hu d).mpr rfl, Origin.IsOpen])) hd', hd]
    · by_cases hb : b < s.numBlocks
      · rw [oo hb, hu b]
      · rcases onew b (by omega) with h | h | h <;> simp only [h, reduceCtorEq, false_iff] <;> omega
  case exit_ret =>
    intro hd
    obtain ⟨he, hu⟩ := hw.exit_ret hd
    refine ⟨?_, fun b => ?_⟩
    · rw [eo hw.exitBB_ne_insertPt hw.exitBB_lt, he]
    · by_cases hb : b < s.numBlocks
      · rw [oo hb]; exact hu b
      · rcases onew b (by omega) with h | h | h <;> simp [h]
  case rets =>
    intro b hb
    rcases mem hb with hb | ⟨rfl, h | h⟩ | ⟨rfl, h⟩ <;> try cases h
    rw [oo (hw.lt_of_mem hb)]
    exact hw.rets b hb
  case diffCalls =>
    intro b i hi hd
    rcases mem hi with hi | ⟨rfl, h | h⟩ | ⟨rfl, h⟩ <;> try cases h
    · rw [oo (hw.lt_of_mem hi)]
      exact hw.diffCalls b i hi hd
    · simp [ht] at hd
  all_goals simp

/-- Opening the block of an address that still holds two instructions with
`unreachable` second: it is emptied and becomes current. -/
theorem openBlock (hw : Wf cfg s) {a : UInt64} {bb : Nat} {x : Inst}
    (ha : s.bbByAddr a = some bb) (hx : (s.blocks bb).insts = [x, .unreachable]) :
    Wf cfg { s.modifyInsts bb (fun _ => []) with
      theBB := some bb, insertPt := bb, rsiBB := bb, opened := s.opened ++ [a] } := by
  have hbo := hw.map a bb ha
  have hbl := hw.lt_of_origin bb (by simp [hbo])
  have nbb : ∀ {b}, (s.blocks b).origin ≠ .addr a → b ≠ bb := fun h e => h (e ▸ hbo)
  have mem : ∀ {b y}, y ∈ ((s.modifyInsts bb fun _ => []).blocks b).insts → y ∈ (s.blocks b).insts := by
    intro b y hy
    by_cases h : b = bb
    · subst h; simp at hy
    · rwa [DCFunction.modifyInsts_blocks_of_ne h] at hy
  constructor <;> simp only [DCFunction.modifyInsts_numBlocks, DCFunction.modifyInsts_bbByAddr,
    DCFunction.modifyInsts_exitBB, DCFunction.modifyInsts_callBBs, DCFunction.modifyInsts_tailCalls,
    DCFunction.modifyInsts_origin]
  case fresh =>
    intro b hb
    rw [DCFunction.modifyInsts_blocks_of_ne (by omega)]
    exact hw.fresh b hb
  case insertPt_open => simp [hbo, Origin.IsOpen]
  case theBB_eq => intro b h; cases h; rfl
  case addr => exact hw.addr
  case placeholder =>
    intro a' b h ha'
    simp only [List.mem_append, List.mem_singleton, not_or] at ha'
    rw [DCFunction.modifyInsts_blocks_of_ne (nbb (by simp [hw.map a' b h, ha'.2]))]
    exact hw.placeholder a' b h ha'.1
  case targets => exact fun b y hy => hw.targets b y (mem hy)
  case callBBs =>
    intro cb hcb
    obtain ⟨p, c, t, ho, hi, hc, hp, hl⟩ := hw.callBBs cb hcb
    have hp' : p ≠ bb := by rintro rfl; simp [hx] at hl
    exact ⟨p, c, t, ho, by rw [DCFunction.modifyInsts_blocks_of_ne (nbb (by simp [ho])), hi], hc, hp',
      by rw [DCFunction.modifyInsts_blocks_of_ne hp', hl]⟩
  case exit_origin => exact hw.exit_origin
  case exit_diff =>
    intro hd
    obtain ⟨d, args, he, hd, hu⟩ := hw.exit_diff hd
    refine ⟨d, args, ?_, ?_, hu⟩
    · rw [DCFunction.modifyInsts_blocks_of_ne (nbb (by simp [hw.exit_origin])), he]
    · rw [DCFunction.modifyInsts_blocks_of_ne (nbb (by simp [(hu d).mpr rfl])), hd]
  case exit_ret =>
    intro hd
    obtain ⟨he, hu⟩ := hw.exit_ret hd
    exact ⟨by rw [DCFunction.modifyInsts_blocks_of_ne (nbb (by simp [hw.exit_origin])), he], hu⟩
  case rets => exact fun b hb => hw.rets b (mem hb)
  case diffCalls => exact fun b i hi => hw.diffCalls b i (mem hi)
  all_goals first | rfl | exact hw.callBBs_nodup

theorem clearTheBB (hw : Wf cfg s) (h : s'.shape = { s.shape with theBB := none }) : Wf cfg s' := by
  have hw' : Wf cfg { s with theBB := none } := by cases hw; constructor <;> first | assumption | simp
  exact hw'.of_shape h

/-- `FinalizeBasicBlock` keeps the invariant. -/
theorem finalizeBasicBlock (hw : Wf cfg s) (h : Dagger.finalizeBasicBlock s = some s') : Wf cfg s' := by
  obtain ⟨bb, s1, hbb, hs1, rfl⟩ := finalizeBasicBlock_eq_some h
  refine clearTheBB (s := s1) ?_ rfl
  rcases hs1 with ⟨-, rfl⟩ | ⟨-, mcbb, -, rfl⟩
  · exact hw
  · obtain ⟨hw1, hm⟩ := hw.getOrCreate mcbb.endAddr
    have hi : (getOrCreateBasicBlock mcbb.endAddr s).2.insertPt = bb := by
      rw [getOrCreateBasicBlock_insertPt, hw.theBB_eq bb hbb]
    have ho := hw1.map _ _ hm
    rw [← hi]
    refine (hw1.append (fun b h => h) (fun h => by cases h) (fun j h => by cases h) ?_).of_shape rfl
    intro x h
    cases h
    exact ⟨hw1.lt_of_origin _ (by simp [ho]), fun p c => by simp [ho]⟩

/-- The builder inserting anything but `ret`, a diff call or a branch to a call block. -/
theorem insert (hw : Wf cfg s) {i : Inst} (hret : i ≠ .ret)
    (hdiff : ∀ j, i = .instr j → j.callsRegSetDiff = false)
    (hbr : ∀ x, i = .br x → x < s.numBlocks ∧ ∀ p c, (s.blocks x).origin ≠ .call p c) :
    Wf cfg (s.insert i) :=
  (hw.append (fun _ h => h) (fun h => absurd h hret) hdiff hbr).of_shape rfl

/-- A branch to the block of an address, made on demand. -/
theorem brAddr (hw : Wf cfg s) (a : UInt64) :
    Wf cfg (Builder.createBr (getOrCreateBasicBlock a s).2 (getOrCreateBasicBlock a s).1) := by
  obtain ⟨hw1, hm⟩ := hw.getOrCreate a
  have ho := hw1.map _ _ hm
  refine hw1.insert (by simp) (by simp) fun x h => ?_
  cases h
  exact ⟨hw1.lt_of_origin _ (by simp [ho]), fun p c => by simp [ho]⟩

/-- **Every primitive move of translation keeps the invariant.** -/
theorem prim (hw : Wf cfg s) (h : Prim cfg s s') : Wf cfg s' := by
  cases h with
  | emit i hi => exact hw.insert (by simp) (by simpa using hi) (by simp)
  | undef =>
    exact (hw.insert (by simp) (fun j h => by cases h; rfl) (by simp)).insert (by simp) (by simp) (by simp)
  | rsiEmit i hi =>
    rw [hw.rsiBB_eq]
    exact (hw.append (fun _ h => h) (by simp) (by simpa using hi) (by simp)).of_shape rfl
  | quiet hs _ _ => exact hw.of_shape hs
  | getReg | setReg => exact hw.of_shape rfl
  | br a => exact hw.brAddr a
  | brExit =>
    refine hw.insert (by simp) (by simp) fun x h => ?_
    cases h
    exact ⟨hw.exitBB_lt, fun p c => by simp [hw.exit_origin]⟩
  | call t cb ht h => exact hw.insertCallBB ht h

theorem prims (hw : Wf cfg s) (h : Prims cfg s s') : Wf cfg s' := by
  induction h with
  | refl => exact hw
  | tail _ hp ih => exact ih.prim hp

/-- `SwitchToBasicBlock` keeps the invariant. -/
theorem switchToBasicBlock (hw : Wf cfg s) {a : UInt64} (h : Dagger.switchToBasicBlock cfg a s = some s') :
    Wf cfg s' := by
  obtain ⟨x, c, hx, -, rfl⟩ := switchToBasicBlock_eq_some h
  obtain ⟨hw1, ha⟩ := hw.getOrCreate a
  refine Wf.prims ?_ (setReg_prims _ _ .refl)
  exact (hw1.openBlock ha hx).of_shape rfl

/-- `createExternalTailCallBB` keeps the invariant. -/
theorem createExternalTailCallBB (hw : Wf cfg s) {a : UInt64}
    (h : Dagger.createExternalTailCallBB cfg a s = some s') : Wf cfg s' := by
  obtain ⟨s1, cb, s2, h1, h2, rfl⟩ := createExternalTailCallBB_eq_some h
  have hw2 := (hw.switchToBasicBlock h1).insertCallBB (by rfl) h2
  exact (hw2.append (fun b h => List.mem_append_left _ h) (fun _ => by simp) (by simp)
    (by simp)).of_shape rfl

/-- **Every operation keeps the invariant.** -/
theorem apply (hw : Wf cfg s) {op : Op} (h : op.apply cfg s = some s') : Wf cfg s' := by
  cases op with
  | switchToBasicBlock mcbb =>
    exact (hw.of_shape rfl : Wf cfg { s with theMCBB := some mcbb }).switchToBasicBlock h
  | translateInst i =>
    obtain ⟨⟨b, s1⟩, h1, rfl⟩ := Option.map_eq_some'.mp h
    exact (((hw.of_shape rfl : Wf cfg ({ s with currentInst := some i }.log (.switchToInst i.address))).prims
      (switchToInst_prims i)).prims (translateInst_prims h1))
  | finalizeBasicBlock => exact hw.finalizeBasicBlock h
  | insertCall t => exact hw.prims (insertCall_prims .refl h)
  | createExternalTailCallBB a => exact hw.createExternalTailCallBB h

/-- The constructor establishes the invariant. -/
theorem new (cfg : Config) (a : UInt64) : Wf cfg (DCFunction.new cfg a) := by
  simp only [DCFunction.new]
  refine Wf.brAddr ?_ a
  split <;> rename_i hf <;>
    simp only [DCFunction.createBlock_eq, Builder.createAlloca, Builder.createLoad, Builder.createStore,
      DCFunction.insert_eq, DCFunction.appendInst_eq, DCFunction.empty, Function.update_same] <;>
    constructor <;> simp [Function.update_apply, hf, Origin.IsOpen]
  case isTrue.addr | isFalse.addr => intro a' b; rcases b with _ | _ | _ | b <;> simp
  all_goals intro b; rcases b with _ | _ | _ | b <;> simp [Instr.callsRegSetDiff]

/-- **The invariant holds in every reachable state.** -/
theorem reachable {a : UInt64} (h : Reachable cfg a s) : Wf cfg s := by
  induction h with
  | init => exact new cfg a
  | step op _ h ih => exact ih.apply h

end Wf

end Dagger
