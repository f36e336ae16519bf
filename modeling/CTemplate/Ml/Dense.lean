import CTemplate.Library.Buffer
import CTemplate.Library.StateMachine
import CTemplate.Math.MatxMul
import CTemplate.Math.MatxOps

/-!
# Dense layers

The layers of `ml/nn.c`.  `dense_forward` keeps its input and `X * W + b` in the layer, and
`dense_backward` makes the gradients from them.  `denseMachine` calls the two functions on a
layer in any order, with batches of any size, and changes its weights in between.

Elements are of an arbitrary type with a zero, an addition and a multiplication; the activation
functions and their derivatives are parameters.
-/

namespace CTemplate

variable {F : Type}

/-! ### The layer -/

/-- `Activation` -/
inductive Activation where
  | linear
  | relu
  | sigmoid
  | tanh
  deriving DecidableEq

/-- `DenseLayer` -/
structure DenseLayer (F : Type) where
  inDim : ℕ
  outDim : ℕ
  act : Activation
  w : MatX F
  b : MatX F
  dw : MatX F
  db : MatX F
  xCache : MatX F
  zCache : MatX F

/-- A matrix whose data is a null pointer, as `matx_destroy` leaves it. -/
def MatX.null : MatX F where
  data := []
  rows := 0
  cols := 0

/-- The matrices of `dense_init`. -/
def denseMatrices [Zero F] (calloc : Fin 4 → Calloc) (inDim outDim : ℕ) :
    Except ErrorCode (MatX F × MatX F × MatX F × MatX F) := do
  let w ← matxInit (calloc 0) inDim outDim
  let b ← matxInit (calloc 1) 1 outDim
  let dw ← matxInit (calloc 2) inDim outDim
  let db ← matxInit (calloc 3) 1 outDim
  pure (w, b, dw, db)

/-- `dense_init`, given the weights that it computes, where `rng` says whether the generator is
not a null pointer. -/
def denseInit [Zero F] (calloc : Fin 4 → Calloc) (inDim outDim : ℕ) (act : Activation)
    (rng : Bool) (weights : ℕ → F) : Option (Except ErrorCode (DenseLayer F)) :=
  if inDim = 0 ∨ outDim = 0 ∨ !rng then some (.error .invalidArg)
  else
    match denseMatrices calloc inDim outDim with
    | .error err => some (.error err)
    | .ok (w, b, dw, db) =>
        (assignAll inDim outDim (fun i => some (weights i)) w).map fun (w, _) =>
          .ok { inDim, outDim, act, w, b, dw, db, xCache := .null, zCache := .null }

/-- `ensure_shape` -/
def ensureShape [Zero F] (m : MatX F) (rows cols : ℕ) (calloc : Calloc) : MatX F × ErrorCode :=
  if m.data ≠ [] ∧ m.rows = rows ∧ m.cols = cols then (m, .ok)
  else
    match matxInit calloc rows cols with
    | .error err => (.null, err)
    | .ok m => (m, .ok)

/-- What follows a call that returns a matrix and a code: `next` when the code is `ERR_OK`. -/
def onOk {σ : Type} (call : Option (MatX F × ErrorCode)) (fail : ErrorCode → σ)
    (next : MatX F → Option σ) : Option σ :=
  call.bind fun (m, err) => if err = .ok then next m else some (fail err)

/-- The caches of a layer for a batch. -/
def ensureCaches [Zero F] (l : DenseLayer F) (batch : ℕ) (calloc : Fin 2 → Calloc) :
    DenseLayer F × ErrorCode :=
  let (xCache, err) := ensureShape l.xCache batch l.inDim (calloc 0)
  let l := { l with xCache }
  if err ≠ .ok then (l, err)
  else
    let (zCache, err) := ensureShape l.zCache batch l.outDim (calloc 1)
    ({ l with zCache }, err)

/-- `memcpy(l->x_cache.data, x->data, batch * l->in_dim * sizeof(float))` -/
def copyBatch (l : DenseLayer F) (x : MatX F) (batch : ℕ) : Option (DenseLayer F) :=
  (mulSize batch l.inDim).bind fun count =>
    (mulSize count floatSize).bind fun _ =>
      (Buffer.read x.data 0 count).bind fun xs =>
        (Buffer.write l.xCache.data 0 xs).map fun data =>
          { l with xCache := { data, rows := l.xCache.rows, cols := l.xCache.cols } }

/-- `dense_forward`: the layer and the matrix `out` after the call, and the code returned. -/
def denseForward [Zero F] [Add F] [Mul F] (actFn : Activation → F → F) (l : DenseLayer F)
    (x out : MatX F) (calloc : Fin 2 → Calloc) : Option (DenseLayer F × MatX F × ErrorCode) :=
  if x.data = [] ∨ out.data = [] then some (l, out, .invalidArg)
  else if x.cols ≠ l.inDim then some (l, out, .invalidArg)
  else if out.rows ≠ x.rows ∨ out.cols ≠ l.outDim then some (l, out, .invalidArg)
  else
    let (l, err) := ensureCaches l x.rows calloc
    if err ≠ .ok then some (l, out, err)
    else
      (copyBatch l x x.rows).bind fun l =>
        onOk (matxMul x l.w l.zCache false) (l, out, ·) fun zCache =>
        onOk (matxAddRow zCache l.b zCache) ({ l with zCache }, out, ·) fun zCache =>
        onOk (matxMap zCache (actFn l.act) out) ({ l with zCache }, out, ·) fun out =>
        some ({ l with zCache }, out, .ok)

/-- The part of `dense_backward` that makes the gradient of the input from `dz`. -/
def inputGradient [Zero F] [Add F] [Mul F] (l : DenseLayer F) (dz dx : MatX F)
    (calloc : Calloc) : Option (DenseLayer F × Option (MatX F) × ErrorCode) :=
  match matxInit calloc l.outDim l.inDim with
  | .error err => some (l, some dx, err)
  | .ok wt =>
      onOk (matxTranspose l.w wt false) (l, some dx, ·) fun wt =>
      onOk (matxMul dz wt dx false) (l, some dx, ·) fun dx =>
      some (l, some dx, .ok)

/-- The part of `dense_backward` that makes the gradients from `dz`. -/
def layerGradients [Zero F] [Add F] [Mul F] (l : DenseLayer F) (batch : ℕ) (dz : MatX F)
    (dx : Option (MatX F)) (calloc : Fin 3 → Calloc) :
    Option (DenseLayer F × Option (MatX F) × ErrorCode) :=
  match matxInit (calloc 1) l.inDim batch with
  | .error err => some (l, dx, err)
  | .ok xt =>
      onOk (matxTranspose l.xCache xt false) (l, dx, ·) fun xt =>
      onOk (matxMul xt dz l.dw false) (l, dx, ·) fun dw =>
      onOk (matxColSums dz l.db false) ({ l with dw }, dx, ·) fun db =>
      match dx with
      | none => some ({ l with dw, db }, none, .ok)
      | some dx => inputGradient { l with dw, db } dz dx (calloc 2)

/-- `dense_backward`: the layer and the matrix `dx` after the call, and the code returned. -/
def denseBackward [Zero F] [Add F] [Mul F] (actGradFn : Activation → F → F) (l : DenseLayer F)
    (dout : MatX F) (dx : Option (MatX F)) (calloc : Fin 3 → Calloc) :
    Option (DenseLayer F × Option (MatX F) × ErrorCode) :=
  if dout.data = [] ∨ l.xCache.data = [] ∨ l.zCache.data = [] then some (l, dx, .invalidArg)
  else
    let batch := l.xCache.rows
    if dout.rows ≠ batch ∨ dout.cols ≠ l.outDim then some (l, dx, .invalidArg)
    else if dx.any fun dx => dx.rows ≠ batch ∨ dx.cols ≠ l.inDim then some (l, dx, .invalidArg)
    else
      match matxInit (calloc 0) batch l.outDim with
      | .error err => some (l, dx, err)
      | .ok dz =>
          onOk (matxMap l.zCache (actGradFn l.act) dz) (l, dx, ·) fun dz =>
          onOk (matxHadamard dz dout dz) (l, dx, ·) fun dz =>
          layerGradients l batch dz dx calloc

/-! ### Shapes of the matrices of a layer -/

/-- The matrix was made by `matx_init`, or its data is a null pointer. -/
def MatX.Valid (m : MatX F) : Prop :=
  m.data ≠ [] → m.Made

/-- The shapes of the matrices.  The caches have the same number of rows when both are there. -/
structure DenseShape (l : DenseLayer F) : Prop where
  w : l.w.Shaped l.inDim l.outDim
  b : l.b.Shaped 1 l.outDim
  dw : l.dw.Shaped l.inDim l.outDim
  db : l.db.Shaped 1 l.outDim
  xCache : l.xCache.Valid
  zCache : l.zCache.Valid
  caches : l.xCache.data ≠ [] → l.zCache.data ≠ [] →
    l.xCache.Shaped l.xCache.rows l.inDim ∧ l.zCache.Shaped l.xCache.rows l.outDim

variable {l : DenseLayer F} {m x out dout : MatX F} {rows cols batch : ℕ}

theorem matxInit_shaped
    [Zero F] {calloc : Calloc} (h : matxInit calloc rows cols = .ok m) :
  m.Shaped rows cols
  where
  made := matxInit_made h
  rows_eq := by rw [matxInit_ok h]
  cols_eq := by rw [matxInit_ok h]

theorem denseMatrices_shaped
    [Zero F] {calloc : Fin 4 → Calloc} {inDim outDim : ℕ} {w b dw db : MatX F}
    (h : denseMatrices calloc inDim outDim = .ok (w, b, dw, db)) :
  w.Shaped inDim outDim ∧ b.Shaped 1 outDim ∧ dw.Shaped inDim outDim ∧ db.Shaped 1 outDim
  := by
  simp only [denseMatrices, bind, Except.bind] at h
  split at h
  · cases h
  case h_2 w' hw =>
  split at h
  · cases h
  case h_2 b' hb =>
  split at h
  · cases h
  case h_2 dw' hdw =>
  split at h
  · cases h
  case h_2 db' hdb =>
  cases h
  exact ⟨matxInit_shaped hw, matxInit_shaped hb, matxInit_shaped hdw, matxInit_shaped hdb⟩

theorem matxInit_error
    [Zero F] {calloc : Calloc} {err : ErrorCode}
    (h : matxInit (F := F) calloc rows cols = .error err) :
  err ≠ .ok
  := by
  rw [matxInit] at h
  split at h
  case h_1 err' hcount =>
    cases h
    rw [checkedCount] at hcount
    rintro rfl
    split at hcount
    · cases hcount
    split at hcount
    · cases hcount
    split at hcount <;> cases hcount
  case h_2 =>
    split at h <;> cases h
    decide

/-- The matrix has the shape afterwards, or its data is a null pointer. -/
theorem ensureShape_cases
    [Zero F] (hm : m.Valid) (rows cols : ℕ) (calloc : Calloc) :
  ((ensureShape m rows cols calloc).2 = .ok
      ∧ (ensureShape m rows cols calloc).1.Shaped rows cols)
    ∨ ((ensureShape m rows cols calloc).2 ≠ .ok ∧ (ensureShape m rows cols calloc).1 = .null)
  := by
  rw [ensureShape]
  split
  case isTrue h => exact .inl ⟨rfl, hm h.1, h.2.1, h.2.2⟩
  case isFalse =>
  cases hinit : matxInit (F := F) calloc rows cols with
  | ok m => exact .inl ⟨rfl, matxInit_shaped hinit⟩
  | error err => exact .inr ⟨matxInit_error hinit, rfl⟩

/-! ### The forward pass -/

/-- The caches hold the input `x` and `x * w + b`. -/
structure Cached [Zero F] [Add F] [Mul F] (l : DenseLayer F) (x : MatX F) : Prop where
  x_eq : l.xCache = x
  z_eq : ∀ r c, r < x.rows → c < l.outDim → l.zCache.at r c = x.dot l.w r c + l.b.at 0 c

/-- A cache is missing, so that the backward pass is refused. -/
def DenseLayer.Uncached (l : DenseLayer F) : Prop :=
  l.xCache.data = [] ∨ l.zCache.data = []

/-- The layer with other caches. -/
theorem DenseShape.with_caches
    (h : DenseShape l) {xCache zCache : MatX F} (hx : xCache.Shaped batch l.inDim)
    (hz : zCache.Shaped batch l.outDim) :
  DenseShape { l with xCache, zCache }
  where
  w := h.w
  b := h.b
  dw := h.dw
  db := h.db
  xCache _ := hx.made
  zCache _ := hz.made
  caches _ _ := by
    dsimp only
    rw [hx.rows_eq]
    exact ⟨hx, hz⟩

/-- The layer with a cache missing. -/
theorem DenseShape.uncached
    (h : DenseShape l) {xCache zCache : MatX F} (hx : xCache.Valid) (hz : zCache.Valid)
    (hnull : xCache.data = [] ∨ zCache.data = []) :
  DenseShape { l with xCache, zCache }
  where
  w := h.w
  b := h.b
  dw := h.dw
  db := h.db
  xCache := hx
  zCache := hz
  caches hx hz := (hnull.elim hx hz).elim

theorem MatX.valid_null : (MatX.null : MatX F).Valid :=
  fun h => absurd rfl h

/-- There are caches for the batch afterwards, or one is missing. -/
theorem DenseShape.ensureCaches
    [Zero F] (h : DenseShape l) (batch : ℕ) (calloc : Fin 2 → Calloc) :
  ∃ xCache zCache, (ensureCaches l batch calloc).1 = { l with xCache, zCache }
    ∧ DenseShape { l with xCache, zCache }
    ∧ (((ensureCaches l batch calloc).2 = .ok ∧ xCache.Shaped batch l.inDim
        ∧ zCache.Shaped batch l.outDim)
      ∨ ((ensureCaches l batch calloc).2 ≠ .ok ∧ (xCache.data = [] ∨ zCache.data = [])))
  := by
  simp only [CTemplate.ensureCaches]
  rcases ensureShape_cases h.xCache batch l.inDim (calloc 0) with ⟨hok, hx⟩ | ⟨herr, hnull⟩
  · rw [if_neg (not_not.mpr hok)]
    rcases ensureShape_cases h.zCache batch l.outDim (calloc 1) with ⟨hok', hz⟩ | ⟨herr', hnull'⟩
    · exact ⟨_, _, rfl, h.with_caches hx hz, .inl ⟨hok', hx, hz⟩⟩
    · refine ⟨_, _, rfl, h.uncached (fun _ => hx.made) ?_ (.inr ?_), .inr ⟨herr', .inr ?_⟩⟩
      · rw [hnull']
        exact MatX.valid_null
      · rw [hnull']
        rfl
      · rw [hnull']
        rfl
  · rw [if_pos herr]
    refine ⟨_, l.zCache, rfl, h.uncached ?_ h.zCache (.inl ?_), .inr ⟨herr, .inl ?_⟩⟩
    · rw [hnull]
      exact MatX.valid_null
    · rw [hnull]
      rfl
    · rw [hnull]
      rfl

/-- The input is copied into the cache. -/
theorem copyBatch_eq
    (hx : x.Shaped batch l.inDim) (hcache : l.xCache.Shaped batch l.inDim) :
  copyBatch l x batch = some { l with xCache := x }
  := by
  have hsize := hx.made.size_le
  rw [hx.rows_eq, hx.cols_eq] at hsize
  have hcount := Nat.le_trans (Nat.le_mul_of_pos_right _ (by decide)) hsize
  have hread : Buffer.read x.data 0 (batch * l.inDim) = some x.data := by
    rw [Buffer.read, if_pos (by rw [hx.length_data]; omega), List.drop_zero, ← hx.length_data,
      List.take_length]
  have hwrite : Buffer.write l.xCache.data 0 x.data = some x.data := by
    rw [Buffer.write, if_pos (by rw [hx.length_data, hcache.length_data]; omega), List.take_zero,
      List.nil_append, Nat.zero_add, hx.length_data, ← hcache.length_data, List.drop_length,
      List.append_nil]
  have hcached : (⟨x.data, l.xCache.rows, l.xCache.cols⟩ : MatX F) = x := by
    rw [hcache.rows_eq, hcache.cols_eq, ← hx.rows_eq, ← hx.cols_eq]
  rw [copyBatch, mulSize_of_le hcount, Option.bind_some, mulSize_of_le hsize, Option.bind_some,
    hread, Option.bind_some, hwrite, Option.map_some, hcached]

theorem DenseShape.with_gradients
    (h : DenseShape l) {dw db : MatX F} (hdw : dw.Shaped l.inDim l.outDim)
    (hdb : db.Shaped 1 l.outDim) :
  DenseShape { l with dw, db }
  where
  w := h.w
  b := h.b
  dw := hdw
  db := hdb
  xCache := h.xCache
  zCache := h.zCache
  caches := h.caches

section Passes

variable [Zero F] [Add F] [Mul F]

/-- The forward pass keeps the shapes.  It succeeds and puts its input into the caches, leaves
the layer as it is, or fails with a cache missing. -/
theorem DenseShape.forward
    (h : DenseShape l) (hx : x.Valid) (hout : out.Valid) (actFn : Activation → F → F)
    (calloc : Fin 2 → Calloc) :
  ∃ xCache zCache out' err, denseForward actFn l x out calloc
      = some ({ l with xCache, zCache }, out', err)
    ∧ DenseShape { l with xCache, zCache }
    ∧ ((err = .ok ∧ Cached { l with xCache, zCache } x)
      ∨ (err ≠ .ok ∧ xCache = l.xCache ∧ zCache = l.zCache)
      ∨ (err ≠ .ok ∧ (xCache.data = [] ∨ zCache.data = [])))
  := by
  rw [denseForward]
  split
  case isTrue =>
    exact ⟨l.xCache, l.zCache, out, _, rfl, h, .inr (.inl ⟨by decide, rfl, rfl⟩)⟩
  case isFalse hdata =>
  split
  case isTrue =>
    exact ⟨l.xCache, l.zCache, out, _, rfl, h, .inr (.inl ⟨by decide, rfl, rfl⟩)⟩
  case isFalse hcols =>
  split
  case isTrue =>
    exact ⟨l.xCache, l.zCache, out, _, rfl, h, .inr (.inl ⟨by decide, rfl, rfl⟩)⟩
  case isFalse hshape =>
  rw [not_or] at hdata hshape
  rw [not_not] at hcols
  rw [not_not, not_not] at hshape
  have hx' : x.Shaped x.rows l.inDim := ⟨hx hdata.1, rfl, hcols⟩
  have hout' : out.Shaped x.rows l.outDim := ⟨hout hdata.2, hshape.1, hshape.2⟩
  obtain ⟨xCache, zCache, heq, hcaches, hcase⟩ := h.ensureCaches x.rows calloc
  simp only [heq]
  rcases hcase with ⟨hok, hxc, hzc⟩ | ⟨herr, hnull⟩
  · rw [if_neg (not_not.mpr hok),
      copyBatch_eq (l := { l with xCache, zCache }) hx' hxc, Option.bind_some]
    obtain ⟨z₁, hmul, hz₁, hat₁⟩ := hx'.mul h.w hzc
    obtain ⟨z₂, hadd, hz₂, hat₂⟩ := hz₁.addRow h.b hz₁
    obtain ⟨out', hmap, -⟩ := hz₂.map hout' (actFn l.act)
    simp only [onOk, hmul, hadd, hmap, Option.bind_some, if_true]
    refine ⟨x, z₂, out', _, rfl, h.with_caches hx' hz₂, .inl ⟨rfl, rfl, ?_⟩⟩
    intro r c hr hc
    dsimp only
    rw [hat₂ r c hr hc, hat₁ r c hr hc]
  · rw [if_pos herr]
    exact ⟨xCache, zCache, out, _, rfl, hcaches, .inr (.inr ⟨herr, hnull⟩)⟩

/-! ### The backward pass -/

/-- The sum of the products `f q * g q` for `q` below `n`, added up from zero. -/
def foldProducts (n : ℕ) (f g : ℕ → F) : F :=
  (List.range n).foldl (fun sum q => sum + f q * g q) 0

theorem foldProducts_congr
    {n : ℕ} {f f' g g' : ℕ → F} (hf : ∀ q, q < n → f q = f' q) (hg : ∀ q, q < n → g q = g' q) :
  foldProducts n f g = foldProducts n f' g'
  := by
  apply List.foldl_ext
  intro sum q hq
  rw [List.mem_range] at hq
  rw [hf q hq, hg q hq]

/-- An element of a product, when the elements of a row and a column are known. -/
theorem MatX.dot_eq_foldProducts
    {a b : MatX F} {i j n : ℕ} {f g : ℕ → F} (hcols : a.cols = n)
    (hf : ∀ q, q < n → a.at i q = f q) (hg : ∀ q, q < n → b.at q j = g q) :
  a.dot b i j = foldProducts n f g
  := by
  rw [MatX.dot, hcols]
  apply foldProducts_congr hf hg

/-- What `dw`, `db` and `dx` are for a gradient `dz` with respect to `x * w + b`. -/
structure Gradients (l : DenseLayer F) (batch : ℕ) (dz : ℕ → ℕ → F) (dw db : MatX F)
    (dx : Option (MatX F)) : Prop where
  dw_eq : ∀ i j, i < l.inDim → j < l.outDim →
    dw.at i j = foldProducts batch (fun r => l.xCache.at r i) fun r => dz r j
  db_eq : ∀ c, c < l.outDim →
    db.at 0 c = (List.range batch).foldl (fun sum r => sum + dz r c) 0
  dx_eq : ∀ m ∈ dx, ∀ r i, r < batch → i < l.inDim →
    m.at r i = foldProducts l.outDim (fun c => dz r c) fun c => l.w.at i c

theorem Gradients.congr
    {dz dz' : ℕ → ℕ → F} {dw db : MatX F} {dx : Option (MatX F)}
    (h : Gradients l batch dz dw db dx)
    (hdz : ∀ r c, r < batch → c < l.outDim → dz r c = dz' r c) :
  Gradients l batch dz' dw db dx
  := by
  constructor
  · intro i j hi hj
    rw [h.dw_eq i j hi hj]
    apply foldProducts_congr (fun _ _ => rfl)
    intro r hr
    apply hdz r j hr hj
  · intro c hc
    rw [h.db_eq c hc]
    apply List.foldl_ext
    intro sum r hr
    rw [hdz r c (List.mem_range.mp hr) hc]
  · intro m hm r i hr hi
    rw [h.dx_eq m hm r i hr hi]
    apply foldProducts_congr _ (fun _ _ => rfl)
    intro c hc
    apply hdz r c hr hc

theorem matxMul_null {a b : MatX F} (hout : out.data = []) :
  matxMul a b out false = some (out, .invalidArg)
  := by
  have hcheck : checkMul a b out false = .invalidArg := if_pos (.inr (.inr hout))
  simp only [matxMul, hcheck]
  rfl

theorem DenseShape.inputGradient
    (h : DenseShape l) {dz dx : MatX F} (hdz : dz.Shaped batch l.outDim)
    (hdx : dx.data ≠ [] → dx.Shaped batch l.inDim) (calloc : Calloc) :
  ∃ dx' err, inputGradient l dz dx calloc = some (l, some dx', err)
    ∧ (err = .ok → ∀ r i, r < batch → i < l.inDim →
      dx'.at r i = foldProducts l.outDim (fun c => dz.at r c) fun c => l.w.at i c)
  := by
  rw [CTemplate.inputGradient]
  cases hinit : matxInit (F := F) calloc l.outDim l.inDim with
  | error err => exact ⟨dx, err, rfl, fun hok => absurd hok (matxInit_error hinit)⟩
  | ok wt =>
      obtain ⟨wt', htranspose, hwt, hat⟩ := h.w.transpose (matxInit_shaped hinit)
      by_cases hdata : dx.data = []
      · simp only [onOk, htranspose, matxMul_null hdata, Option.bind_some, if_true]
        exact ⟨dx, .invalidArg, rfl, fun hok => nomatch hok⟩
      · obtain ⟨dx', hmul, -, hat'⟩ := hdz.mul hwt (hdx hdata)
        simp only [onOk, htranspose, hmul, Option.bind_some, if_true]
        refine ⟨dx', .ok, rfl, fun _ => ?_⟩
        intro r i hr hi
        rw [hat' r i hr hi]
        apply MatX.dot_eq_foldProducts hdz.cols_eq (fun _ _ => rfl)
        intro c hc
        apply hat c i hc hi

theorem DenseShape.layerGradients
    (h : DenseShape l) {dz : MatX F} {dx : Option (MatX F)} (hdz : dz.Shaped batch l.outDim)
    (hx : l.xCache.Shaped batch l.inDim)
    (hdx : ∀ m ∈ dx, m.data ≠ [] → m.Shaped batch l.inDim) (calloc : Fin 3 → Calloc) :
  ∃ dw db dx' err, layerGradients l batch dz dx calloc = some ({ l with dw, db }, dx', err)
    ∧ DenseShape { l with dw, db } ∧ dx'.isSome = dx.isSome
    ∧ (err = .ok → Gradients l batch (fun r c => dz.at r c) dw db dx')
  := by
  rw [CTemplate.layerGradients]
  cases hinit : matxInit (F := F) (calloc 1) l.inDim batch with
  | error err =>
      exact ⟨l.dw, l.db, dx, err, rfl, h, rfl, fun hok => absurd hok (matxInit_error hinit)⟩
  | ok xt =>
      obtain ⟨xt', htranspose, hxt, hat⟩ := hx.transpose (matxInit_shaped hinit)
      obtain ⟨dw, hmul, hdw, hdw_eq⟩ := hxt.mul hdz h.dw
      obtain ⟨db, hsums, hdb, hdb_eq⟩ := hdz.colSums h.db
      have h' := h.with_gradients hdw hdb
      have hgradient : ∀ i j, i < l.inDim → j < l.outDim →
          dw.at i j = foldProducts batch (fun r => l.xCache.at r i) fun r => dz.at r j := by
        intro i j hi hj
        rw [hdw_eq i j hi hj]
        apply MatX.dot_eq_foldProducts hxt.cols_eq _ (fun _ _ => rfl)
        intro r hr
        apply hat i r hi hr
      simp only [onOk, htranspose, hmul, hsums, Option.bind_some, if_true]
      cases dx with
      | none =>
          refine ⟨dw, db, none, .ok, rfl, h', rfl, fun _ => ⟨hgradient, hdb_eq, ?_⟩⟩
          intro dx hdx
          cases hdx
      | some dx =>
          obtain ⟨dx', err, hinput, hdx_eq⟩ :=
            h'.inputGradient hdz (hdx dx rfl) (calloc 2)
          refine ⟨dw, db, some dx', err, hinput, h', rfl, ?_⟩
          intro hok
          refine ⟨hgradient, hdb_eq, ?_⟩
          intro dx'' hdx''
          obtain rfl := Option.some.inj hdx''
          apply hdx_eq hok

/-- The backward pass keeps the shapes and changes only the gradients, which are right when it
succeeds. -/
theorem DenseShape.backward
    (h : DenseShape l) (hdout : dout.Valid) {dx : Option (MatX F)} (hdx : ∀ m ∈ dx, m.Valid)
    (actGradFn : Activation → F → F) (calloc : Fin 3 → Calloc) :
  ∃ dw db dx' err, denseBackward actGradFn l dout dx calloc = some ({ l with dw, db }, dx', err)
    ∧ DenseShape { l with dw, db } ∧ dx'.isSome = dx.isSome
    ∧ (err = .ok → ¬ l.Uncached ∧ Gradients l l.xCache.rows
      (fun r c => actGradFn l.act (l.zCache.at r c) * dout.at r c) dw db dx')
  := by
  have hinvalid : ∃ dw db dx' err, some (l, dx, ErrorCode.invalidArg)
        = some ({ l with dw, db }, dx', err)
      ∧ DenseShape { l with dw, db } ∧ dx'.isSome = dx.isSome
      ∧ (err = .ok → ¬ l.Uncached ∧ Gradients l l.xCache.rows
        (fun r c => actGradFn l.act (l.zCache.at r c) * dout.at r c) dw db dx') :=
    ⟨l.dw, l.db, dx, _, rfl, h, rfl, fun hok => nomatch hok⟩
  simp only [denseBackward]
  split
  case isTrue => exact hinvalid
  case isFalse hdata =>
  split
  case isTrue => exact hinvalid
  case isFalse hshape =>
  split
  case isTrue => exact hinvalid
  case isFalse hdxShape =>
  rw [not_or, not_or] at hdata
  rw [not_or, not_not, not_not] at hshape
  obtain ⟨hx, hz⟩ := h.caches hdata.2.1 hdata.2.2
  have hdout' : dout.Shaped l.xCache.rows l.outDim := ⟨hdout hdata.1, hshape.1, hshape.2⟩
  have hdx' : ∀ m ∈ dx, m.data ≠ [] → m.Shaped l.xCache.rows l.inDim := by
    intro m hm hm'
    rw [Option.mem_def] at hm
    obtain rfl := hm
    rw [Option.any_some, decide_eq_true_iff, not_or, not_not, not_not] at hdxShape
    exact ⟨hdx m rfl hm', hdxShape.1, hdxShape.2⟩
  cases hinit : matxInit (F := F) (calloc 0) l.xCache.rows l.outDim with
  | error err =>
      exact ⟨l.dw, l.db, dx, err, rfl, h, rfl, fun hok => absurd hok (matxInit_error hinit)⟩
  | ok dz =>
      obtain ⟨dz₁, hmap, hdz₁, hat₁⟩ := hz.map (matxInit_shaped hinit) (actGradFn l.act)
      obtain ⟨dz₂, hmul, hdz₂, hat₂⟩ := hdz₁.hadamard hdout' hdz₁
      obtain ⟨dw, db, dx', err, hgradients, hshape', hsome, hok⟩ :=
        h.layerGradients hdz₂ hx hdx' calloc
      simp only [onOk, hmap, hmul, Option.bind_some, if_true]
      refine ⟨dw, db, dx', err, hgradients, hshape', hsome, ?_⟩
      intro herr
      use not_or.mpr hdata.2
      apply (hok herr).congr
      intro r c hr hc
      rw [hat₂ r c hr hc, hat₁ r c hr hc]

end Passes

end CTemplate
