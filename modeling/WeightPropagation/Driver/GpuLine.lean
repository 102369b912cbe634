import WeightPropagation.Driver.Requests
import WeightPropagation.Framework.Decimal

/-!
# The line that names a GPU

A client of `pass_fd_server` writes `GPU=<n>` and a newline, and the server calls
`recv` once. What it has got by then may be any first part of the line
(`gpuMetadata`), and it reads a number from that part all the same: 0, or a number
with fewer digits. `targetGpu_take_iff` says from which parts it reads the GPU that
the client has named, and `own_fd_iff` what follows for a client on the GPU of the
buffer: from which it gets the buffer's own descriptor.
-/

namespace WPI.Driver

/-- The line that `receive_fd` sends. -/
def gpuMetadata (gpuId : Int) : List UInt8 := utf8 ("GPU=" ++ gpuId.repr ++ "\n")

/-- The GPU that `pass_fd_server` reads from what `recv` has returned; `none` when
`decode` raises. -/
def targetGpu (data : List UInt8) : Option Int :=
  (fromUtf8 data).map fun text =>
    if startswith (strip text) "GPU=" then
      (((splitChar '=' (strip text))[1]?).bind parseInt).getD 0
    else 0

/-- One client of `pass_fd_server`, with what `recv` has returned; `none` when `decode`
raises. -/
def serveClient (cfg : Config) (bufferId : String) (data : List UInt8) (ans : FdAnswers) (d : State) :
    Option (FdReply × State) :=
  (targetGpu data).map fun target => passFdServer cfg bufferId (some target) ans d

/-! ## The number that is read -/

/-- What stands after the equals sign is read as a number, with or without the newline. -/
theorem targetGpu_after {cs tail : List Char} (hspace : ∀ c ∈ cs, isSpace c = false) (hequals : '=' ∉ cs)
    (htail : tail = [] ∨ tail = ['\n']) :
    targetGpu (utf8 (String.ofList ("GPU=".toList ++ cs ++ tail))) =
      some ((parseInt (String.ofList cs)).getD 0) := by
  have hname : ∀ c ∈ "GPU=".toList, isSpace c = false := by
    simp [isSpace]
  have hall : ∀ c ∈ "GPU=".toList ++ cs, isSpace c = false := fun c hc =>
    (List.mem_append.mp hc).elim (hname c) (hspace c)
  have hstrip : strip (String.ofList ("GPU=".toList ++ cs ++ tail)) =
      String.ofList ("GPU=".toList ++ cs) := by
    rcases htail with rfl | rfl
    · rw [List.append_nil, strip, String.toList_ofList, strip_eq_self hall]
    · exact strip_newline (by simp) hall
  have hstarts : startswith (String.ofList ("GPU=".toList ++ cs)) "GPU=" = true :=
    startswith_iff.mpr ⟨String.ofList cs, by rw [String.ofList_append, String.ofList_toList]⟩
  have hsplit : splitChar '=' (String.ofList ("GPU=".toList ++ cs)) = ["GPU", String.ofList cs] := by
    rw [splitChar, String.toList_ofList, show "GPU=".toList ++ cs = "GPU".toList ++ '=' :: cs from rfl,
      List.splitOn_append_cons_self_of_not_mem (by decide), List.splitOn_eq_singleton hequals]
    simp
  rw [targetGpu, fromUtf8_utf8, Option.map_some, hstrip, if_pos hstarts, hsplit]
  rfl

theorem equals_not_mem_repr (g : Int) : '=' ∉ g.repr.toList := not_mem_repr (by decide) (by decide) g

/-- A part of the line as far as the equals sign is read as 0. -/
theorem targetGpu_name {cs : List Char} {k : Nat} (hk : k < 4) :
    targetGpu (utf8 (String.ofList (("GPU=".toList ++ cs).take k))) = some 0 := by
  rw [List.take_append_of_le_length (by show k ≤ 4; omega)]
  obtain rfl | rfl | rfl | rfl : k = 0 ∨ k = 1 ∨ k = 2 ∨ k = 3 := by omega
  all_goals rw [targetGpu, fromUtf8_utf8]; decide +kernel

theorem take_gpuMetadata (g : Int) (k : Nat) : (gpuMetadata g).take k =
    utf8 (String.ofList (("GPU=".toList ++ (g.repr.toList ++ ['\n'])).take k)) := by
  have hline : gpuMetadata g = utf8 (String.ofList ("GPU=".toList ++ (g.repr.toList ++ ['\n']))) := by
    rw [gpuMetadata]
    congr 1
    exact String.toList_injective (by simp)
  have hname : ∀ c ∈ "GPU=".toList, c.toNat < 128 := by simp
  rw [hline, take_utf8 fun c hc => ?_]
  rcases List.mem_append.mp hc with hc | hc
  · exact hname c hc
  rcases List.mem_append.mp hc with hc | hc
  · obtain hd | rfl := isDigit_of_mem_repr hc
    · have hd := Char.isDigit_iff_toNat.mp hd
      have h9 : '9'.toNat = 57 := rfl
      omega
    · decide
  · rw [List.mem_singleton.mp hc]
    decide

/-- The server reads the GPU that the client has named, from what the first `recv` has got
of the line, if and only if that has all digits of the number, or the number is 0. -/
theorem targetGpu_take_iff (g : Int) (k : Nat) :
    targetGpu ((gpuMetadata g).take k) = some g ↔ 4 + g.repr.toList.length ≤ k ∨ g = 0 := by
  rw [take_gpuMetadata]
  by_cases hk : k < 4
  · rw [targetGpu_name hk, Option.some_inj]
    refine ⟨fun h => .inr h.symm, fun h => (h.resolve_left (by omega)).symm⟩
  obtain ⟨j, rfl⟩ := Nat.exists_eq_add_of_le (not_lt.mp hk)
  have hrest : ("GPU=".toList ++ (g.repr.toList ++ ['\n'])).take (4 + j) =
      "GPU=".toList ++ (g.repr.toList.take j ++ ['\n'].take (j - g.repr.toList.length)) := by
    have hname : "GPU=".toList.length = 4 := rfl
    rw [List.take_append, List.take_append, hname, List.take_of_length_le (by omega), Nat.add_sub_cancel_left]
  have htail : ['\n'].take (j - g.repr.toList.length) = [] ∨
      ['\n'].take (j - g.repr.toList.length) = ['\n'] := by
    cases j - g.repr.toList.length with
    | zero => exact .inl rfl
    | succ n => exact .inr (by simp)
  rw [hrest, ← List.append_assoc, targetGpu_after
    (fun c hc => isSpace_of_mem_repr (List.mem_of_mem_take hc))
    (fun hc => equals_not_mem_repr g (List.mem_of_mem_take hc)) htail, Option.some_inj]
  by_cases hg : g = 0
  · subst hg
    refine ⟨fun _ => .inr rfl, fun _ => ?_⟩
    cases j with
    | zero => decide
    | succ j =>
      rw [List.take_of_length_le (by show 1 ≤ j + 1; omega), String.ofList_toList, parseInt_repr]
      rfl
  · rw [parseInt_take_iff hg]
    omega

/-! ## The descriptor that the client gets -/

/-- Only a request for the GPU of a buffer is answered with its own descriptor. -/
theorem gpuId_of_own_fd {cfg : Config} {b : String} {info : Info} {g : Int} {ans : FdAnswers} {d d' : State}
    (hwf : Wf d) (he : d.allocatedBuffers.get? b = some info)
    (h : passFdServer cfg b (some g) ans d = (.fd info.fd, d')) : g = info.gpuId := by
  generalize hreply : FdReply.fd info.fd = reply at h
  cases passFdServer_cases h with
  | closed | failed => cases hreply
  | own he' hg =>
    rw [he] at he'
    cases he'
    exact hg
  | @reused info' copy he' hg hr =>
    -- Two entries with one descriptor have one key, and no buffer has the key of a copy of it.
    have hfd : info.fd = copy.fd := FdReply.fd.inj hreply
    rw [hwf.fd_eq he, hwf.fd_eq hr] at hfd
    have hself := isRelocationOf_relocateKey b g
    rw [show relocateKey b g = b from (hwf.handle_inj he hr hfd).symm, not_isRelocationOf_self] at hself
    cases hself
  | relocated copy he' hg hr hc hn hh hf hs ht =>
    have hfd : info.fd = copy.fd := FdReply.fd.inj hreply
    have hlt := hwf.handle_lt he
    rw [hf, hwf.fd_eq he] at hfd
    omega

/-- In every state that is reached, a client that names the GPU of a buffer gets the buffer's
own descriptor, whatever CUDA does, if and only if the first `recv` has got all digits of the
line, or the buffer is on GPU 0. -/
theorem own_fd_iff {cfg : Config} {as : List Request} {d : State} (h : Exec (handle cfg) Always .init as d)
    {b : String} {info : Info} (he : d.allocatedBuffers.get? b = some info) (k : Nat) (ans : FdAnswers) :
    (∃ d', serveClient cfg b ((gpuMetadata info.gpuId).take k) ans d = some (.fd info.fd, d')) ↔
      4 + info.gpuId.repr.toList.length ≤ k ∨ info.gpuId = 0 := by
  have hwf : Wf d := h.inv (fun _ _ _ hd _ hs => hd.handle hs) wf_init
  rw [← targetGpu_take_iff]
  constructor
  · rintro ⟨d', hserve⟩
    obtain ⟨g, hg, hpass⟩ := Option.map_eq_some_iff.mp hserve
    rw [hg, gpuId_of_own_fd hwf he hpass]
  · intro hg
    refine ⟨d, ?_⟩
    rw [serveClient, hg, Option.map_some]
    simp [passFdServer, he]

/-- A shard on GPU 12. -/
def stageShard : Request :=
  .stage ⟨"c", "m", "", 4, 12, 16⟩ ⟨none, some 16, ⟨none, 2, 4096⟩, true, none, none, none⟩

/-- The server has got `GPU=1` of the client's line. -/
theorem not_own_fd_cut : ∃ d info, Exec (handle ⟨true, true⟩) Always .init [stageShard] d ∧
    d.allocatedBuffers.get? "m__shard_12" = some info ∧
    ¬∃ d', serveClient ⟨true, true⟩ "m__shard_12" ((gpuMetadata info.gpuId).take 5)
      ⟨⟨none, 2, 8192⟩, false⟩ d = some (.fd info.fd, d') := by
  have h := Exec.of_isSome (show (runWith (handle ⟨true, true⟩) Always .init
    [stageShard]).isSome = true by decide +kernel)
  have he : ((runWith (handle ⟨true, true⟩) Always .init
      [stageShard]).get (by decide +kernel)).allocatedBuffers.get? "m__shard_12" =
      some ⟨4096, 4, 0, 0, 12, some 1⟩ := by decide +kernel
  refine ⟨_, _, h, he, ?_⟩
  rw [own_fd_iff h he]
  decide

end WPI.Driver
