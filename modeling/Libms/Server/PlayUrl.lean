import Mathlib
import Libms.Framework.Runs
import Libms.Server.ParseUri
import Libms.Server.Registry

/-! # Play urls

    `ms_generate_resource` hands out a url of the server for a url of the
    application, and `ms_find_resource` finds the resource again by the path
    of the request. The path has the id of the resource and the last segment
    of its url, and the search is for a strict prefix.

    * `PlayRun`: the resources, and what was generated, removed and handed
      out so far.
    * `Booked`: the invariant. The count of a resource is what its url has
      outstanding.
    * `Booked.changed`, `step_new`: what a call does to the list.
    * `hasPrefix_iff`: what a path is decoded to.
    * `playUrls_resolve_iff`: one resource for each url, ids that are never
      used again, and when every play url leads back to its resource. -/

namespace Libms

open Runs Text

namespace MsServer

/-! ## `get_play_url` -/

/-- The format of `get_play_url` filled in. The text is shorter than any
    buffer, so the length of the segment fits an `int`. -/
def playUrlText (port : Int) (r : Resource) : List Char :=
  "http://127.0.0.1:".toList ++ printInt port ++
    '/' :: ("stream/".toList ++ (printInt r.id ++ '/' :: lastSegment (mgParseUri r.originUrl)))

/-- `get_play_url` -/
def getPlayUrl (port : Int) (r : Resource) (playUrlLen : UInt64) : List Char :=
  snprintf (playUrlLen - 1).toNat (playUrlText port r)

/-- The resource that `ms_generate_resource` answers for: the one of the url,
    or a new one. -/
def resourceFor (url : List Char) (x : MsServer) : Resource :=
  (x.resources.find? fun r => r.originUrl = url).getD ⟨url, x.baseUrlId + 1, 1⟩

/-- What `ms_generate_resource` leaves in `play_url` and `resoueceId`. -/
def generateOut (port : Int) (url : List Char) (playUrlLen : UInt64) (x : MsServer) :
    List Char × Int :=
  (getPlayUrl port (x.resourceFor url) playUrlLen, (x.resourceFor url).id)

end MsServer

/-! ## Runs of calls -/

/-- The calls of the application. -/
inductive ResourceCall where
  | generate (url : List Char) (playUrlLen : UInt64)
  | remove (id : Int)

/-- A play url that was handed out, and the id with it. -/
structure Handed where
  id : Int
  playUrl : List Char

/-- A server with the urls of all generate calls, the url of the resource for
    each call that removed one, the ids of the resources that were made, and
    the play urls. -/
structure PlayRun where
  server : MsServer
  generated : List (List Char)
  removed : List (List Char)
  made : List Int
  handed : List Handed

namespace PlayRun

open MsServer

/-- A server without resources. -/
def start : PlayRun := ⟨initMediaServer, [], [], [], []⟩

/-- One call. -/
def step (port : Int) (s : PlayRun) : ResourceCall → PlayRun
  | .generate url playUrlLen =>
    let (playUrl, id) := s.server.generateOut port url playUrlLen
    { server := s.server.generateResource url
      generated := s.generated ++ [url]
      removed := s.removed
      made :=
        if s.server.resources.any fun r => r.originUrl = url then s.made else s.made ++ [id]
      handed := s.handed ++ [⟨id, playUrl⟩] }
  | .remove id =>
    { s with
      server := s.server.removeResource id
      removed := s.removed ++ ((s.server.findResourceById id).map Resource.originUrl).toList }

/-- The buffer for a play url is large enough. -/
def Fits (port : Int) (s : PlayRun) : ResourceCall → Prop
  | .generate url playUrlLen =>
    (playUrlText port (s.server.resourceFor url)).length + 1 < playUrlLen.toNat
  | .remove _ => True

/-- The references to the resources of a url. -/
def refsOf (s : PlayRun) (url : List Char) : Int :=
  ((s.server.resources.filter fun r => r.originUrl = url).map Resource.ref).sum

/-- There is one resource for a url that was generated more often than it was
    removed, and none for any other. -/
def OnePerUrl (s : PlayRun) : Prop :=
  ∀ url, (s.server.resources.filter fun r => r.originUrl = url).length =
    if s.removed.count url < s.generated.count url then 1 else 0

/-- Every play url that was handed out for a resource that is there leads to
    this resource, and its path has the prefix of no other. -/
def Resolves (s : PlayRun) : Prop :=
  ∀ h ∈ s.handed, ∀ r ∈ s.server.resources, r.id = h.id →
    s.server.findResource (mgParseUri h.playUrl) = some r ∧
      ∀ r' ∈ s.server.resources,
        hasPrefix (mgParseUri h.playUrl) ("/stream/".toList ++ printInt r'.id ++ ['/']) → r' = r

/-- **Invariant.** -/
structure Booked (port : Int) (s : PlayRun) : Prop where
  ids : (s.server.resources.map Resource.id).Nodup
  urls : (s.server.resources.map Resource.originUrl).Nodup
  refs : ∀ r ∈ s.server.resources, 0 < r.ref
  live : ∀ r ∈ s.server.resources, r.id ∈ s.made
  made : s.made.Nodup
  below : ∀ id ∈ s.made, 0 < id ∧ id ≤ s.server.baseUrlId
  base : 0 ≤ s.server.baseUrlId
  counted : ∀ url, (s.generated.count url : Int) - s.removed.count url = s.refsOf url
  handed : ∀ h ∈ s.handed, h.id ∈ s.made ∧
    ∀ r ∈ s.server.resources, r.id = h.id → h.playUrl = playUrlText port r
  known : ∀ r ∈ s.server.resources, ∃ h ∈ s.handed, h.id = r.id

section calls

variable {port : Int} {s s' : PlayRun} {url : List Char}

theorem playUrlText_congr {r r' : Resource} (hid : r'.id = r.id)
    (hurl : r'.originUrl = r.originUrl) : playUrlText port r' = playUrlText port r := by
  unfold playUrlText
  rw [hid, hurl]

/-- In a large buffer the text is whole. -/
theorem getPlayUrl_fits {r : Resource} {playUrlLen : UInt64}
    (h : (playUrlText port r).length + 1 < playUrlLen.toNat) :
    getPlayUrl port r playUrlLen = playUrlText port r := by
  rw [getPlayUrl]
  generalize playUrlText port r = text at h ⊢
  have hone : (1 : UInt64) ≤ playUrlLen := by
    rw [UInt64.le_iff_toNat_le, UInt64.toNat_one]
    omega
  have hsize : (playUrlLen - 1).toNat = playUrlLen.toNat - 1 := by
    rw [UInt64.toNat_sub_of_le _ _ hone, UInt64.toNat_one]
  apply snprintf_of_lt
  omega

/-! ## The list of the resources -/

/-- Where the first resource that is looked for stands. -/
theorem updateFirst_split {p : Resource → Bool} {rs : List Resource} (h : ∃ r ∈ rs, p r) :
    ∃ before r after, rs = before ++ r :: after ∧ p r ∧ (∀ r' ∈ before, p r' = false) ∧
      rs.find? p = some r ∧ ∀ f, updateFirst p f rs = before ++ (f r).toList ++ after := by
  induction rs with
  | nil =>
    obtain ⟨r, hr, -⟩ := h
    cases hr
  | cons r rs ih =>
    cases hp : p r with
    | true =>
      refine ⟨[], r, rs, rfl, hp, fun r' hr' => absurd hr' List.not_mem_nil, ?_, fun f => ?_⟩
      · rw [List.find?_cons_of_pos hp]
      · rw [updateFirst, if_pos hp, List.nil_append]
    | false =>
      obtain ⟨x, hx, hpx⟩ := h
      have hrest : ∃ r' ∈ rs, p r' := by
        rcases List.mem_cons.mp hx with rfl | hx
        · rw [hp] at hpx
          cases hpx
        · exact ⟨x, hx, hpx⟩
      obtain ⟨before, r', after, hsplit, hp', hbefore, hfind, hupdate⟩ := ih hrest
      refine ⟨r :: before, r', after, by rw [hsplit, List.cons_append], hp', ?_, ?_, fun f => ?_⟩
      · intro y hy
        rcases List.mem_cons.mp hy with rfl | hy
        · exact hp
        · exact hbefore y hy
      · rw [List.find?_cons_of_neg (by rw [hp]; exact Bool.false_ne_true), hfind]
      · rw [updateFirst, if_neg (by rw [hp]; exact Bool.false_ne_true), hupdate]
        rfl

theorem updateFirst_none {p : Resource → Bool} {rs : List Resource} (h : ∀ r ∈ rs, p r = false)
    (f : Resource → Option Resource) : updateFirst p f rs = rs := by
  induction rs with
  | nil => rfl
  | cons r rs ih =>
    rw [updateFirst, if_neg (by rw [h r List.mem_cons_self]; exact Bool.false_ne_true)]
    rw [ih fun r' hr' => h r' (List.mem_cons_of_mem r hr')]

/-- No resource is new. -/
theorem Booked.kept (h : Booked port s) (hmade : s'.made = s.made)
    (hbase : s'.server.baseUrlId = s.server.baseUrlId)
    (hids : (s'.server.resources.map Resource.id).Sublist (s.server.resources.map Resource.id))
    (hurls : (s'.server.resources.map Resource.originUrl).Sublist
      (s.server.resources.map Resource.originUrl))
    (hrefs : ∀ r ∈ s'.server.resources, 0 < r.ref)
    (hold : ∀ r ∈ s'.server.resources, ∃ r₀ ∈ s.server.resources,
      r₀.id = r.id ∧ r₀.originUrl = r.originUrl)
    (hcounted : ∀ url, (s'.generated.count url : Int) - s'.removed.count url = s'.refsOf url)
    (hhanded : ∀ x ∈ s'.handed, x ∈ s.handed ∨
      ∃ r ∈ s.server.resources, x.id = r.id ∧ x.playUrl = playUrlText port r)
    (hknown : s.handed ⊆ s'.handed) : Booked port s' where
  ids := h.ids.sublist hids
  urls := h.urls.sublist hurls
  refs := hrefs
  live r hr := by
    obtain ⟨r₀, hr₀, hid, -⟩ := hold r hr
    rw [hmade, ← hid]
    exact h.live r₀ hr₀
  made := by
    rw [hmade]
    exact h.made
  below id hid := by
    rw [hmade] at hid
    rw [hbase]
    exact h.below id hid
  base := by
    rw [hbase]
    exact h.base
  counted := hcounted
  handed x hx := by
    rw [hmade]
    rcases hhanded x hx with hx | ⟨r, hr, hxid, hxtext⟩
    · obtain ⟨hid, htext⟩ := h.handed x hx
      refine ⟨hid, fun r hr hrid => ?_⟩
      obtain ⟨r₀, hr₀, hid₀, hurl₀⟩ := hold r hr
      rw [htext r₀ hr₀ (hid₀.trans hrid)]
      exact playUrlText_congr hid₀ hurl₀
    · refine ⟨by rw [hxid]; exact h.live r hr, fun r' hr' hrid => ?_⟩
      obtain ⟨r₀, hr₀, hid₀, hurl₀⟩ := hold r' hr'
      -- an id has one resource
      have hsame : r₀ = r :=
        List.inj_on_of_nodup_map h.ids hr₀ hr (hid₀.trans (hrid.trans hxid))
      rw [hxtext, ← hsame]
      exact playUrlText_congr hid₀ hurl₀
  known r hr := by
    obtain ⟨r₀, hr₀, hid₀, -⟩ := hold r hr
    obtain ⟨x, hx, hxid⟩ := h.known r₀ hr₀
    exact ⟨x, hknown hx, hxid.trans hid₀⟩

theorem count_snoc (urls : List (List Char)) (url url' : List Char) :
    ((urls ++ [url]).count url' : Int) = urls.count url' + if url = url' then 1 else 0 := by
  rw [List.count_append, List.count_singleton]
  by_cases hsame : url = url'
  · rw [if_pos hsame, if_pos (beq_iff_eq.mpr hsame)]
    rfl
  · rw [if_neg hsame, if_neg (fun hbeq => hsame (beq_iff_eq.mp hbeq))]
    rfl

/-- The references of a url, with one resource apart from the others. -/
theorem refsOf_split {before mid after : List Resource}
    (h : s.server.resources = before ++ mid ++ after) (url : List Char) :
    s.refsOf url = ((before.filter fun r => r.originUrl = url).map Resource.ref).sum +
      ((mid.filter fun r => r.originUrl = url).map Resource.ref).sum +
        ((after.filter fun r => r.originUrl = url).map Resource.ref).sum := by
  rw [refsOf, h, List.filter_append, List.filter_append, List.map_append, List.map_append,
    List.sum_append, List.sum_append]

theorem sum_refs_of_url {mid : List Resource} {r : Resource}
    (h : ∀ x ∈ mid, x.originUrl = r.originUrl) (url : List Char) :
    ((mid.filter fun x => x.originUrl = url).map Resource.ref).sum =
      if r.originUrl = url then (mid.map Resource.ref).sum else 0 := by
  by_cases hsame : r.originUrl = url
  · rw [if_pos hsame, List.filter_eq_self.mpr]
    intro x hx
    exact decide_eq_true ((h x hx).trans hsame)
  · rw [if_neg hsame, List.filter_eq_nil_iff.mpr]
    · rfl
    · intro x hx hurl
      exact hsame ((h x hx).symm.trans (of_decide_eq_true hurl))

/-- One resource gets other references, or goes. Its url has as many more or
    less. -/
theorem Booked.changed (h : Booked port s) {before mid after : List Resource} {r : Resource}
    (hsplit : s.server.resources = before ++ r :: after)
    (hresources : s'.server.resources = before ++ mid ++ after)
    (hmid : mid = [] ∨ ∃ ref, 0 < ref ∧ mid = [{ r with ref := ref }])
    (hmade : s'.made = s.made) (hbase : s'.server.baseUrlId = s.server.baseUrlId)
    (hcount : ∀ url, (s'.generated.count url : Int) - s'.removed.count url =
      s.generated.count url - s.removed.count url +
        if r.originUrl = url then (mid.map Resource.ref).sum - r.ref else 0)
    (hhanded : ∀ x ∈ s'.handed, x ∈ s.handed ∨ x.id = r.id ∧ x.playUrl = playUrlText port r)
    (hknown : s.handed ⊆ s'.handed) : Booked port s' := by
  have hr : r ∈ s.server.resources := by
    rw [hsplit]
    exact List.mem_append_right _ List.mem_cons_self
  have hleft : ∀ x ∈ mid, x.id = r.id ∧ x.originUrl = r.originUrl ∧ 0 < x.ref := by
    rcases hmid with rfl | ⟨ref, hpos, rfl⟩
    · exact fun x hx => absurd hx List.not_mem_nil
    · intro x hx
      rw [List.mem_singleton.mp hx]
      exact ⟨rfl, rfl, hpos⟩
  have hmem : ∀ x ∈ s'.server.resources, x ∈ mid ∨ x ∈ s.server.resources := by
    intro x hx
    rw [hresources] at hx
    rw [hsplit]
    rcases List.mem_append.mp hx with hx | hx
    · rcases List.mem_append.mp hx with hx | hx
      · exact Or.inr (List.mem_append_left _ hx)
      · exact Or.inl hx
    · exact Or.inr (List.mem_append_right _ (List.mem_cons_of_mem r hx))
  -- the list is the old one, or lacks the resource
  have hmap : ∀ {α : Type} (f : Resource → α), (∀ x ∈ mid, f x = f r) →
      (s'.server.resources.map f).Sublist (s.server.resources.map f) := by
    intro α f hf
    rw [hresources, hsplit, List.map_append, List.map_append, List.map_append, List.map_cons,
      List.append_assoc]
    apply (List.Sublist.refl _).append
    rcases hmid with rfl | ⟨ref, -, rfl⟩
    · exact List.sublist_cons_self _ _
    · rw [List.map_singleton, hf _ (List.mem_singleton.mpr rfl)]
      exact List.Sublist.refl _
  apply h.kept hmade hbase
  case hids => exact hmap Resource.id fun x hx => (hleft x hx).1
  case hurls => exact hmap Resource.originUrl fun x hx => (hleft x hx).2.1
  case hrefs =>
    intro x hx
    rcases hmem x hx with hx | hx
    · exact (hleft x hx).2.2
    · exact h.refs x hx
  case hold =>
    intro x hx
    rcases hmem x hx with hx | hx
    · exact ⟨r, hr, (hleft x hx).1.symm, (hleft x hx).2.1.symm⟩
    · exact ⟨x, hx, rfl, rfl⟩
  case hcounted =>
    intro url
    have hself : s.server.resources = before ++ [r] ++ after := by
      rw [hsplit, List.append_assoc]
      rfl
    rw [hcount, h.counted, refsOf_split hself, refsOf_split hresources,
      sum_refs_of_url (fun x hx => (hleft x hx).2.1),
      sum_refs_of_url (r := r) (fun x hx => congrArg _ (List.mem_singleton.mp hx)),
      List.map_singleton, List.sum_singleton]
    split
    · omega
    · omega
  case hhanded =>
    intro x hx
    rcases hhanded x hx with hx | hx
    · exact Or.inl hx
    · exact Or.inr ⟨r, hr, hx⟩
  case hknown => exact hknown

/-- **Step lemma**, a url that has a resource. -/
theorem Booked.generateAgain (h : Booked port s) {playUrlLen : UInt64}
    (hfits : s.Fits port (.generate url playUrlLen))
    (hany : ∃ r ∈ s.server.resources, r.originUrl = url) :
    Booked port (s.step port (.generate url playUrlLen)) := by
  obtain ⟨before, r, after, hsplit, hurl, -, hfind, hupdate⟩ :=
    @updateFirst_split (fun r => decide (r.originUrl = url)) s.server.resources
      (by simpa using hany)
  have hurl : r.originUrl = url := of_decide_eq_true hurl
  have hhas : (s.server.resources.any fun r => r.originUrl = url) = true := by
    simpa using hany
  have hfor : s.server.resourceFor url = r := by
    rw [resourceFor, hfind]
    rfl
  have hr : r ∈ s.server.resources := List.mem_of_find?_eq_some hfind
  have hresources : (s.step port (.generate url playUrlLen)).server.resources =
      before ++ [{ r with ref := r.ref + 1 }] ++ after := by
    show (s.server.generateResource url).resources = _
    rw [generateResource, if_pos hhas]
    exact hupdate _
  apply h.changed hsplit hresources
  case hmid =>
    have hpos := h.refs r hr
    exact Or.inr ⟨r.ref + 1, by omega, rfl⟩
  case hmade => exact if_pos hhas
  case hbase =>
    show (s.server.generateResource url).baseUrlId = _
    rw [generateResource, if_pos hhas]
  case hcount =>
    intro url'
    show ((s.generated ++ [url]).count url' : Int) - s.removed.count url' = _
    rw [count_snoc, hurl, List.map_singleton, List.sum_singleton]
    dsimp only
    split
    · omega
    · omega
  case hhanded =>
    intro x hx
    rcases List.mem_append.mp hx with hx | hx
    · exact Or.inl hx
    · right
      rw [List.mem_singleton.mp hx]
      have htext := hfits
      rw [Fits, hfor] at htext
      exact ⟨congrArg Resource.id hfor, by rw [hfor]; exact getPlayUrl_fits htext⟩
  case hknown => exact List.subset_append_left _ _

/-- The call for a url that has no resource: the next id is taken. -/
theorem step_new {playUrlLen : UInt64} (hfits : s.Fits port (.generate url playUrlLen))
    (hnone : ∀ r ∈ s.server.resources, r.originUrl ≠ url) :
    s.step port (.generate url playUrlLen) =
      { server := { s.server with
          resources := s.server.resources ++ [⟨url, s.server.baseUrlId + 1, 1⟩]
          baseUrlId := s.server.baseUrlId + 1 }
        generated := s.generated ++ [url]
        removed := s.removed
        made := s.made ++ [s.server.baseUrlId + 1]
        handed := s.handed ++
          [⟨s.server.baseUrlId + 1, playUrlText port ⟨url, s.server.baseUrlId + 1, 1⟩⟩] } := by
  have hhas : ¬ (s.server.resources.any fun r => r.originUrl = url) = true := by
    simpa using hnone
  have hfor : s.server.resourceFor url = ⟨url, s.server.baseUrlId + 1, 1⟩ := by
    rw [resourceFor, List.find?_eq_none.mpr (by simpa using hnone)]
    rfl
  have htext := hfits
  rw [Fits, hfor] at htext
  rw [step, generateOut, generateResource, if_neg hhas, hfor, getPlayUrl_fits htext]
  dsimp only
  rw [if_neg hhas]

/-- **Step lemma**, a url that has none. -/
theorem Booked.generateNew (h : Booked port s) {playUrlLen : UInt64}
    (hfits : s.Fits port (.generate url playUrlLen))
    (hnone : ∀ r ∈ s.server.resources, r.originUrl ≠ url) :
    Booked port (s.step port (.generate url playUrlLen)) := by
  -- every id so far is below the next one
  have hfresh : s.server.baseUrlId + 1 ∉ s.made := by
    intro hmem
    have := (h.below _ hmem).2
    omega
  have hfreshId : ∀ r ∈ s.server.resources, r.id ≠ s.server.baseUrlId + 1 :=
    fun r hr heq => hfresh (heq ▸ h.live r hr)
  have hzero := h.base
  rw [step_new hfits hnone]
  constructor
  case ids =>
    rw [List.map_append]
    refine nodup_snoc h.ids fun hmem => ?_
    obtain ⟨r, hr, hid⟩ := List.mem_map.mp hmem
    exact hfreshId r hr hid
  case urls =>
    rw [List.map_append]
    refine nodup_snoc h.urls fun hmem => ?_
    obtain ⟨r, hr, hurl⟩ := List.mem_map.mp hmem
    exact hnone r hr hurl
  case made => exact nodup_snoc h.made hfresh
  case base => exact Int.le_add_one hzero
  case refs =>
    intro r hr
    rcases List.mem_append.mp hr with hr | hr
    · exact h.refs r hr
    · rw [List.mem_singleton.mp hr]
      exact Int.one_pos
  case live =>
    intro r hr
    rcases List.mem_append.mp hr with hr | hr
    · exact List.mem_append_left _ (h.live r hr)
    · rw [List.mem_singleton.mp hr]
      exact List.mem_append_right _ (List.mem_singleton.mpr rfl)
  case below =>
    intro id hid
    dsimp only
    rcases List.mem_append.mp hid with hid | hid
    · have := h.below id hid
      omega
    · rw [List.mem_singleton.mp hid]
      omega
  case counted =>
    intro url'
    have hbefore := h.counted url'
    rw [refsOf] at hbefore ⊢
    dsimp only
    rw [count_snoc, List.filter_append, List.map_append, List.sum_append, ← hbefore,
      sum_refs_of_url (r := ⟨url, s.server.baseUrlId + 1, 1⟩)
        (fun x hx => congrArg _ (List.mem_singleton.mp hx)),
      List.map_singleton, List.sum_singleton]
    exact add_sub_right_comm _ _ _
  case handed =>
    intro x hx
    rcases List.mem_append.mp hx with hx | hx
    · obtain ⟨hid, htext⟩ := h.handed x hx
      refine ⟨List.mem_append_left _ hid, fun r hr hrid => ?_⟩
      rcases List.mem_append.mp hr with hr | hr
      · exact htext r hr hrid
      · rw [List.mem_singleton.mp hr] at hrid
        rw [← hrid] at hid
        exact absurd hid hfresh
    · rw [List.mem_singleton.mp hx]
      refine ⟨List.mem_append_right _ (List.mem_singleton.mpr rfl), fun r hr hrid => ?_⟩
      rcases List.mem_append.mp hr with hr | hr
      · exact absurd hrid (hfreshId r hr)
      · rw [List.mem_singleton.mp hr]
  case known =>
    intro r hr
    rcases List.mem_append.mp hr with hr | hr
    · obtain ⟨x, hx, hid⟩ := h.known r hr
      exact ⟨x, List.mem_append_left _ hx, hid⟩
    · refine ⟨_, List.mem_append_right _ (List.mem_singleton.mpr rfl), ?_⟩
      rw [List.mem_singleton.mp hr]

/-- **Step lemma**, a call that removes: a reference goes, and the resource
    with the last one. -/
theorem Booked.remove (h : Booked port s) (id : Int) : Booked port (s.step port (.remove id)) := by
  cases hfound : s.server.findResourceById id with
  | none =>
    have hno := List.find?_eq_none.mp hfound
    have hsame : s.server.removeResource id = s.server := by
      rw [removeResource, updateFirst_none (by simpa using hno)]
    have hstep : s.step port (.remove id) = s := by
      rw [step, hsame, hfound]
      simp
    rw [hstep]
    exact h
  | some r₁ =>
    rw [findResourceById] at hfound
    have hhas : ∃ r ∈ s.server.resources, decide (r.id = id) :=
      ⟨r₁, List.mem_of_find?_eq_some hfound, by simpa using List.find?_some hfound⟩
    obtain ⟨before, r, after, hsplit, hid, -, hfind, hupdate⟩ :=
      @updateFirst_split (fun r => decide (r.id = id)) s.server.resources hhas
    have hremoved : (s.step port (.remove id)).removed = s.removed ++ [r.originUrl] := by
      show s.removed ++ ((s.server.findResourceById id).map Resource.originUrl).toList = _
      rw [findResourceById, hfind]
      rfl
    have hpos := h.refs r (List.mem_of_find?_eq_some hfind)
    -- what is left of the resource
    obtain ⟨mid, hresources, hmid, hsum⟩ : ∃ mid : List Resource,
        (s.step port (.remove id)).server.resources = before ++ mid ++ after ∧
        (mid = [] ∨ ∃ ref, 0 < ref ∧ mid = [{ r with ref := ref }]) ∧
        (mid.map Resource.ref).sum = r.ref - 1 := by
      refine ⟨_, hupdate _, ?_⟩
      by_cases hlast : r.ref - 1 = 0
      · rw [if_pos hlast]
        exact ⟨Or.inl rfl, hlast.symm⟩
      · rw [if_neg hlast]
        exact ⟨Or.inr ⟨r.ref - 1, by omega, rfl⟩, List.sum_singleton⟩
    apply h.changed hsplit hresources hmid
    case hmade => rfl
    case hbase => rfl
    case hcount =>
      intro url
      rw [hremoved, hsum, count_snoc]
      show (s.generated.count url : Int) - _ = _
      split
      · omega
      · omega
    case hhanded => exact fun x hx => Or.inl hx
    case hknown => exact List.Subset.refl _

theorem start_booked : Booked port start where
  ids := List.nodup_nil
  urls := List.nodup_nil
  refs _ hr := absurd hr List.not_mem_nil
  live _ hr := absurd hr List.not_mem_nil
  made := List.nodup_nil
  below _ hid := absurd hid List.not_mem_nil
  base := Int.le_refl 0
  counted _ := rfl
  handed _ hx := absurd hx List.not_mem_nil
  known _ hr := absurd hr List.not_mem_nil

theorem Booked.step (h : Booked port s) (c : ResourceCall) (hfits : s.Fits port c) :
    Booked port (s.step port c) := by
  cases c with
  | generate url playUrlLen =>
    by_cases hany : ∃ r ∈ s.server.resources, r.originUrl = url
    · exact h.generateAgain hfits hany
    · exact h.generateNew hfits fun r hr hurl => hany ⟨r, hr, hurl⟩
  | remove id => exact h.remove id

/-- A url has as many references as it has calls outstanding, so it has a
    resource as long as there are any. -/
theorem Booked.onePerUrl (h : Booked port s) : s.OnePerUrl := by
  intro url
  have hcounted := h.counted url
  have hnodup := (h.urls.sublist ((List.filter_sublist (p := fun r => r.originUrl = url)).map _))
  rw [refsOf] at hcounted
  have hall : ∀ r ∈ s.server.resources.filter (fun r => r.originUrl = url),
      r.originUrl = url ∧ 0 < r.ref := by
    intro r hr
    obtain ⟨hr, hurl⟩ := List.mem_filter.mp hr
    exact ⟨of_decide_eq_true hurl, h.refs r hr⟩
  revert hcounted hnodup hall
  generalize s.server.resources.filter (fun r => r.originUrl = url) = rs
  intro hcounted hnodup hall
  match rs, hcounted, hnodup, hall with
  | [], hcounted, _, _ =>
    rw [List.map_nil, List.sum_nil] at hcounted
    rw [if_neg (by omega)]
    rfl
  | [r], hcounted, _, hall =>
    have hpos := (hall r List.mem_cons_self).2
    rw [List.map_singleton, List.sum_singleton] at hcounted
    rw [if_pos (by omega)]
    rfl
  | r :: r' :: rs, _, hnodup, hall =>
    -- two resources of one url
    have hsame : r.originUrl = r'.originUrl :=
      (hall r (by simp)).1.trans (hall r' (by simp)).1.symm
    rw [List.map_cons, List.map_cons, hsame] at hnodup
    exact absurd List.mem_cons_self (List.nodup_cons.mp hnodup).1

end calls

/-! ## Paths -/

section paths

variable {port : Int} {s : PlayRun}

/-- The path of a play url. -/
theorem mgParseUri_playUrlText (port : Int) (r : Resource) :
    mgParseUri (playUrlText port r) =
      "/stream/".toList ++ printInt r.id ++ '/' :: lastSegment (mgParseUri r.originUrl) := by
  have hport : ∀ c ∈ printInt port, c ≠ '@' ∧ c ≠ '[' ∧ c ≠ '/' := by
    intro c hc
    rcases mem_printInt hc with rfl | hdigit
    · decide
    · refine ⟨?_, ?_, ?_⟩
      all_goals
        rintro rfl
        exact absurd hdigit (by decide)
  -- neither the id nor the segment ends the path
  have hpath : ∀ c ∈ "stream/".toList ++
      (printInt r.id ++ '/' :: lastSegment (mgParseUri r.originUrl)),
      (c ≠ '?' && c ≠ '#') = true := by
    have hstream : ∀ c ∈ "stream/".toList, (c ≠ '?' && c ≠ '#') = true := by simp
    intro c hc
    rcases List.mem_append.mp hc with hc | hc
    · exact hstream c hc
    · rcases List.mem_append.mp hc with hc | hc
      · rcases mem_printInt hc with rfl | hdigit
        · decide
        · rw [Bool.and_eq_true, decide_eq_true_eq, decide_eq_true_eq]
          constructor
          all_goals
            rintro rfl
            exact absurd hdigit (by decide)
      · rcases List.mem_cons.mp hc with rfl | hc
        · decide
        · simpa using mem_parseUriLoop (mem_lastSegment hc)
  unfold playUrlText
  rw [mgParseUri_address hport, List.takeWhile_eq_self_iff.mpr hpath]
  simp

/-- A path with an id has the prefix of this id only. -/
theorem hasPrefix_iff {id id' : Int} {segment : List Char} (hid : 0 < id ∧ id < 2 ^ 31)
    (hid' : 0 < id' ∧ id' < 2 ^ 31) :
    hasPrefix ("/stream/".toList ++ printInt id ++ '/' :: segment)
      ("/stream/".toList ++ printInt id' ++ ['/']) ↔ id' = id ∧ segment ≠ [] := by
  generalize "/stream/".toList = stream
  rw [hasPrefix, Bool.and_eq_true, decide_eq_true_eq, List.isPrefixOf_iff_prefix]
  constructor
  · rintro ⟨hless, rest, hrest⟩
    rw [List.append_assoc, List.append_assoc, List.append_assoc] at hrest
    have htext : printInt id' ++ '/' :: rest = printInt id ++ '/' :: segment :=
      List.append_cancel_left hrest
    -- the digits end at the slash in both
    have hscan := @scanInt_printInt id' (by omega) (by omega) ('/' :: rest)
      (noDigitNext_cons (by decide))
    rw [htext, @scanInt_printInt id (by omega) (by omega) ('/' :: segment)
      (noDigitNext_cons (by decide))] at hscan
    obtain ⟨hsame, hsegment⟩ := Prod.mk.inj (Option.some.inj hscan)
    refine ⟨hsame.symm, fun hempty => ?_⟩
    rw [hempty, hsame] at hless
    simp at hless
  · rintro ⟨rfl, hsegment⟩
    constructor
    · have hpos := List.length_pos_iff.mpr hsegment
      simp only [List.length_append, List.length_cons, List.length_nil]
      omega
    · refine ⟨segment, ?_⟩
      rw [List.append_assoc, List.append_assoc, List.append_assoc]
      rfl

/-- Whether a play url leads back to its resource is decided by its segment. -/
theorem Booked.resolves_iff (h : Booked port s) (hids : s.server.baseUrlId < 2 ^ 31) :
    s.Resolves ↔ ∀ r ∈ s.server.resources, lastSegment (mgParseUri r.originUrl) ≠ [] := by
  have hrange : ∀ r ∈ s.server.resources, 0 < r.id ∧ r.id < 2 ^ 31 := by
    intro r hr
    have := h.below r.id (h.live r hr)
    omega
  have hmatch : ∀ r ∈ s.server.resources, ∀ r' ∈ s.server.resources,
      hasPrefix (mgParseUri (playUrlText port r))
        ("/stream/".toList ++ printInt r'.id ++ ['/']) = true ↔
          r'.id = r.id ∧ lastSegment (mgParseUri r.originUrl) ≠ [] := by
    intro r hr r' hr'
    rw [mgParseUri_playUrlText]
    exact hasPrefix_iff (hrange r hr) (hrange r' hr')
  constructor
  · intro hresolves r hr
    obtain ⟨x, hx, hid⟩ := h.known r hr
    obtain ⟨hfind, -⟩ := hresolves x hx r hr hid.symm
    rw [(h.handed x hx).2 r hr hid.symm, findResource] at hfind
    have hprefix := List.find?_some hfind
    exact ((hmatch r hr r hr).mp hprefix).2
  · intro hsegments x hx r hr hid
    rw [(h.handed x hx).2 r hr hid]
    have honly : ∀ r' ∈ s.server.resources, hasPrefix (mgParseUri (playUrlText port r))
        ("/stream/".toList ++ printInt r'.id ++ ['/']) = true → r' = r := by
      intro r' hr' hprefix
      exact List.inj_on_of_nodup_map h.ids hr' hr ((hmatch r hr r' hr').mp hprefix).1
    refine ⟨?_, honly⟩
    cases hfind : s.server.findResource (mgParseUri (playUrlText port r)) with
    | none =>
      have hno := List.find?_eq_none.mp hfind r hr
      exact absurd ((hmatch r hr r hr).mpr ⟨rfl, hsegments r hr⟩) hno
    | some r' =>
      rw [findResource] at hfind
      have hr' := List.mem_of_find?_eq_some hfind
      have hprefix := List.find?_some hfind
      rw [honly r' hr' hprefix]

end paths

/-- **Play urls.** After any calls with buffers that are large enough, and as
    long as the ids fit an `int`: there is one resource for each url that has
    calls outstanding, no id was given twice, and all play urls lead back to
    their resources, iff the url of every resource has a last segment. -/
theorem playUrls_resolve_iff (port : Int) (calls : List ResourceCall)
    (hfits : Along (PlayRun.step port) (Fits port) PlayRun.start calls)
    (hids : (run (PlayRun.step port) PlayRun.start calls).server.baseUrlId < 2 ^ 31) :
    let s := run (PlayRun.step port) PlayRun.start calls
    (s.OnePerUrl ∧ s.made.Nodup ∧ s.Resolves) ↔
      ∀ r ∈ s.server.resources, lastSegment (mgParseUri r.originUrl) ≠ [] := by
  intro s
  have h : Booked port s :=
    run_invariant (fun _ c hs hfit => hs.step c hfit) start_booked hfits
  constructor
  · rintro ⟨-, -, hresolves⟩
    exact (h.resolves_iff hids).mp hresolves
  · intro hsegments
    exact ⟨h.onePerUrl, h.made, (h.resolves_iff hids).mpr hsegments⟩

/-- A url with a last segment. -/
theorem playUrls_resolve_iff_one :
    let s := run (PlayRun.step 8080) PlayRun.start [.generate "http://h/a".toList 64]
    (s.OnePerUrl ∧ s.made.Nodup ∧ s.Resolves) ↔
      ∀ r ∈ s.server.resources, lastSegment (mgParseUri r.originUrl) ≠ [] :=
  playUrls_resolve_iff 8080 [.generate "http://h/a".toList 64]
    ⟨by unfold Fits; decide +kernel, trivial⟩ (by decide +kernel)

/-- A url without one. Its play url ends with the id and a slash, which the
    search for a strict prefix does not find. -/
theorem playUrl_lost :
    let s := run (PlayRun.step 8080) PlayRun.start [.generate "http://h/".toList 64]
    Along (PlayRun.step 8080) (Fits 8080) PlayRun.start [.generate "http://h/".toList 64] ∧
      s.server.baseUrlId = 1 ∧ ¬ (s.OnePerUrl ∧ s.made.Nodup ∧ s.Resolves) := by
  intro s
  have hfits : Along (PlayRun.step 8080) (Fits 8080) PlayRun.start
      [.generate "http://h/".toList 64] := ⟨by unfold Fits; decide +kernel, trivial⟩
  have hbase : s.server.baseUrlId = 1 := by decide +kernel
  refine ⟨hfits, hbase, fun hall => ?_⟩
  have h : Booked 8080 s :=
    run_invariant (fun _ c hs hfit => hs.step c hfit) start_booked hfits
  have hsegment := (h.resolves_iff (by rw [hbase]; decide)).mp hall.2.2
    ⟨"http://h/".toList, 1, 1⟩ (by decide +kernel)
  exact hsegment (by decide +kernel)

end PlayRun

end Libms
