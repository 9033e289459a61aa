import Almyty.Tools.Pagination

/-!
# What paging keeps

`SafePages` is what the events of a run are held to, and `Paging` the invariant of the loop that
gives it, one page at a time; for an offset `Filling` says that what is collected is the list up
to the offset. Both hold where the pages fit: `Careful` and `OffsetFits`.
-/

namespace Almyty.Tools

open Almyty.Lib List
open Almyty.Security

section

variable (outside : Outside) (base : BaseConfig) (httpConfig : PagedConfig)
  (policy : Option GatewayToolSecurityPolicy)

/-! ## What is promised -/

/-- Right before the request of a page URL both gates let it through; every other request is
of the first URL. -/
def Passed (before : List PageEvent) (taken : Option String) (request : PageRequest) : Prop :=
  match taken with
  | none => request.url = base.url
  | some next =>
    [.checked next (.ok request.url), .policed request.url none] <:+ before ∧
      assertSafeNextPageUrl outside next base.url = .ok request.url ∧
      assertToolRequestAllowed outside policy request.url base.method = none

def PagesChecked (events : List PageEvent) : Prop :=
  ∀ before taken request after, events = before ++ .request taken request :: after →
    Passed outside base policy before taken request

def CredentialStaysHome (sent : List PageRequest) : Prop :=
  ∀ request ∈ sent, originOf outside.parser request.url ≠ originOf outside.parser base.url →
    ¬request.carries base.credential

structure SafePages (events : List PageEvent) : Prop where
  bounded : ((pageRequests events).length : Rat) ≤ httpConfig.pagination.pageLimit
  checked : PagesChecked outside base policy events
  home : CredentialStaysHome outside base (pageRequests events)

structure PageFits (s : PageState) : Prop where
  whole : (s.pageCount : Rat) + 1 ≤ httpConfig.pagination.pageLimit
  home : base.credential = [] ∨
    ∀ next url, s.followed httpConfig.pagination.type = some next →
      assertSafeNextPageUrl outside next base.url = .ok url →
        assertToolRequestAllowed outside policy url base.method = none →
          originOf outside.parser url = originOf outside.parser base.url

def Careful (s : PageState) : Prop :=
  (s.pageCount : Rat) < httpConfig.pagination.pageLimit → PageFits outside base httpConfig policy s

structure Paging (s : PageState) : Prop where
  counted : (pageRequests s.events).length = s.pageCount
  within : (s.pageCount : Rat) ≤ httpConfig.pagination.pageLimit
  checked : PagesChecked outside base policy s.events
  home : CredentialStaysHome outside base (pageRequests s.events)

/-! ## A server with an offset -/

def sentParam (name : String) (params : Fields) : Option Json :=
  if name = "" then none else params.lookup name

structure OffsetServer where
  list : List Json
  offset : Option Json → Nat
  limit : Option Json → Nat
  offset_none : offset none = 0
  offset_num : ∀ n : Nat, offset (some (.num n)) = n
  limit_num : ∀ n : Nat, limit (some (.num n)) = n

def OffsetServer.page (server : OffsetServer) (pagination : Pagination) (params : Fields) :
    List Json :=
  (server.list.drop (server.offset (sentParam pagination.offsetParam params))).take
    (server.limit (sentParam pagination.limitParam params))

def OffsetServer.Answers (server : OffsetServer) : Prop :=
  ∀ n request params response results, outside.upstream n request = some response →
    request.params = some params → pageResults outside httpConfig response = .ok results →
      results = .json (.arr (server.page httpConfig.pagination params))

def OffsetServer.pageSize (server : OffsetServer) (pagination : Pagination) (params : Fields) :
    Nat :=
  min (server.limit (sentParam pagination.limitParam (offsetParams pagination params 0)))
    server.list.length

structure OffsetFits (server : OffsetServer) (pagination : Pagination) (params : Fields) :
    Prop where
  apart : pagination.offsetParam ≠ "" →
    pagination.offsetParam ≠ "__proto__" ∧ pagination.offsetParam ≠ pagination.limitParam
  fits : pagination.pageLimit ≤ 1 ∨ (server.pageSize pagination params : Rat) < pagination.step ∨
    (pagination.offsetParam ≠ "" ∧ (server.pageSize pagination params : Rat) = pagination.step)

def Filling (server : OffsetServer) (s : PageState) : Prop :=
  ∃ m : Nat, s.allResults = (server.list.take m).map .json ∧
    ((s.pageCount : Rat) < httpConfig.pagination.pageLimit →
      s.offset = m ∧ (m = 0 ∨ httpConfig.pagination.offsetParam ≠ ""))

end

/-! ## One page -/

section

variable {outside : Outside} {base : BaseConfig} {httpConfig : PagedConfig}
  {policy : Option GatewayToolSecurityPolicy} {s : PageState}

@[simp] theorem pageRequests_append (events events' : List PageEvent) :
    pageRequests (events ++ events') = pageRequests events ++ pageRequests events' :=
  filterMap_append

variable {gates : List PageEvent}

theorem pageRequests_gates {config : Except PageError (Option String × PageRequest)}
    (h : s.pageConfig outside base httpConfig policy = (gates, config)) :
    pageRequests gates = [] := by
  unfold PageState.pageConfig at h
  split at h
  · obtain ⟨rfl, -⟩ := Prod.mk.inj h
    rfl
  · split at h
    · obtain ⟨rfl, -⟩ := Prod.mk.inj h
      rfl
    · split at h <;>
      · obtain ⟨rfl, -⟩ := Prod.mk.inj h
        rfl

variable {taken : Option String} {request : PageRequest}

theorem pageConfig_ok
    (h : s.pageConfig outside base httpConfig policy = (gates, .ok (taken, request))) :
    request.headers = base.headers ∧
      ((gates = [] ∧ taken = none ∧ request.url = base.url) ∨
        ∃ next, s.followed httpConfig.pagination.type = some next ∧ taken = some next ∧
          gates = [.checked next (.ok request.url), .policed request.url none] ∧
          assertSafeNextPageUrl outside next base.url = .ok request.url ∧
          assertToolRequestAllowed outside policy request.url base.method = none) := by
  unfold PageState.pageConfig at h
  split at h
  · obtain ⟨rfl, hconfig⟩ := Prod.mk.inj h
    obtain ⟨rfl, rfl⟩ := Prod.mk.inj (Except.ok.inj hconfig)
    exact ⟨rfl, .inl ⟨rfl, rfl, rfl⟩⟩
  next next hnext =>
  split at h
  · cases (Prod.mk.inj h).2
  next url hsafe =>
  split at h
  · cases (Prod.mk.inj h).2
  next hallowed =>
  obtain ⟨rfl, hconfig⟩ := Prod.mk.inj h
  obtain ⟨rfl, rfl⟩ := Prod.mk.inj (Except.ok.inj hconfig)
  exact ⟨rfl, .inr ⟨next, hnext, rfl, rfl, hsafe, hallowed⟩⟩

theorem pageTurn_again {s' : PageState}
    (h : pageTurn outside base httpConfig policy s = .again s') :
    (s.pageCount : Rat) < httpConfig.pagination.pageLimit ∧
      ∃ gates taken request response results s₁,
        s.pageConfig outside base httpConfig policy = (gates, .ok (taken, request)) ∧
        outside.upstream s.pageCount request = some response ∧
        pageResults outside httpConfig response = .ok results ∧
        s.next outside httpConfig response results = some s₁ ∧
        s' = { s₁ with
          pageCount := s.pageCount + 1
          allResults := s.allResults ++ collected results
          events := s.events ++ gates ++ [.request taken request] } := by
  unfold pageTurn at h
  split at h
  · next hroom =>
    refine ⟨hroom.1, ?_⟩
    cases hconfig : s.pageConfig outside base httpConfig policy with
    | mk gates config =>
      rw [hconfig] at h
      dsimp only at h
      split at h
      · cases h
      next taken request =>
      split at h
      · cases h
      next response hresponse =>
      split at h
      · cases h
      next results hresults =>
      split at h
      · cases h
      next s₁ hnext =>
      exact ⟨gates, taken, request, response, results, s₁, rfl, hresponse, hresults, hnext,
        (Loop.Turn.again.inj h).symm⟩
  · cases h

theorem pageTurn_done {pages : PagesEnd}
    (h : pageTurn outside base httpConfig policy s = .done pages) :
    pages = ⟨.ok s.allResults, s.events⟩ ∨
      (s.pageCount : Rat) < httpConfig.pagination.pageLimit ∧
        ∃ gates config, s.pageConfig outside base httpConfig policy = (gates, config) ∧
          ((∃ error, pages = ⟨.error error, s.events ++ gates⟩) ∨
            ∃ taken request, config = .ok (taken, request) ∧
              pages.events = s.events ++ gates ++ [.request taken request] ∧
              ∀ items, pages.result = .ok items →
                ∃ response results, outside.upstream s.pageCount request = some response ∧
                  pageResults outside httpConfig response = .ok results ∧
                  items = s.allResults ++ collected results) := by
  unfold pageTurn at h
  split at h
  · next hroom =>
    refine .inr ⟨hroom.1, ?_⟩
    cases hconfig : s.pageConfig outside base httpConfig policy with
    | mk gates config =>
      refine ⟨gates, config, rfl, ?_⟩
      rw [hconfig] at h
      dsimp only at h
      split at h
      next error =>
        exact .inl ⟨error, (Loop.Turn.done.inj h).symm⟩
      next taken request =>
      refine .inr ⟨taken, request, rfl, ?_⟩
      split at h
      · obtain rfl := Loop.Turn.done.inj h
        exact ⟨rfl, fun items hitems => nomatch hitems⟩
      next response hresponse =>
      split at h
      · obtain rfl := Loop.Turn.done.inj h
        exact ⟨rfl, fun items hitems => nomatch hitems⟩
      next results hresults =>
      split at h
      · obtain rfl := Loop.Turn.done.inj h
        exact ⟨rfl, fun items hitems =>
          ⟨response, results, hresponse, hresults, (Except.ok.inj hitems).symm⟩⟩
      · cases h
  · exact .inl (Loop.Turn.done.inj h).symm

/-! ## Gates and headers -/

theorem split_append {α : Type} {l r before after : List α} {y : α}
    (h : l ++ r = before ++ y :: after) :
    (∃ after', l = before ++ y :: after') ∨ ∃ before', before = l ++ before' ∧
      r = before' ++ y :: after := by
  rcases append_eq_append_iff.mp h with ⟨before', hbefore, hr⟩ | ⟨rest, hl, hrest⟩
  · exact .inr ⟨before', hbefore, hr⟩
  · cases rest with
    | nil => exact .inr ⟨[], by rw [hl, append_nil, append_nil], hrest.symm⟩
    | cons x after' =>
      obtain ⟨rfl, -⟩ := List.cons.inj hrest
      exact .inl ⟨after', hl⟩

theorem not_request_of_pageRequests {gates before after : List PageEvent}
    (h : pageRequests gates = []) :
    gates ≠ before ++ .request taken request :: after := by
  rintro rfl
  simp [pageRequests] at h

theorem PagesChecked.append_gates {events gates : List PageEvent}
    (h : PagesChecked outside base policy events) (hgates : pageRequests gates = []) :
    PagesChecked outside base policy (events ++ gates) := by
  intro before taken request after heq
  rcases split_append heq with ⟨after', hevents⟩ | ⟨before', -, hlater⟩
  · exact h before taken request after' hevents
  · exact absurd hlater (not_request_of_pageRequests hgates)

theorem PagesChecked.append_request {events : List PageEvent}
    (h : PagesChecked outside base policy events)
    (hpassed : Passed outside base policy events taken request) :
    PagesChecked outside base policy (events ++ [.request taken request]) := by
  intro before taken' request' after heq
  rcases split_concat heq with ⟨-, rfl, hsame⟩ | ⟨after', -, hevents⟩
  · obtain ⟨rfl, rfl⟩ := PageEvent.request.inj hsame
    exact hpassed
  · exact h before taken' request' after' hevents

theorem passed_of_pageConfig
    (h : s.pageConfig outside base httpConfig policy = (gates, .ok (taken, request)))
    (events : List PageEvent) :
    Passed outside base policy (events ++ gates) taken request := by
  rcases (pageConfig_ok h).2 with ⟨-, rfl, hurl⟩ | ⟨next, -, rfl, rfl, hsafe, hallowed⟩
  · exact hurl
  · exact ⟨suffix_append _ _, hsafe, hallowed⟩

theorem home_of_pageConfig
    (h : s.pageConfig outside base httpConfig policy = (gates, .ok (taken, request)))
    (hfits : PageFits outside base httpConfig policy s)
    (haway : originOf outside.parser request.url ≠ originOf outside.parser base.url) :
    ¬request.carries base.credential := by
  rcases (pageConfig_ok h).2 with ⟨-, -, hurl⟩ | ⟨next, hnext, -, -, hsafe, hallowed⟩
  · rw [hurl] at haway
    exact absurd rfl haway
  · rcases hfits.home with hnone | hhome
    · rintro ⟨e, he, -⟩
      rw [hnone] at he
      exact absurd he not_mem_nil
    · exact absurd (hhome next request.url hnext hsafe hallowed) haway

theorem Paging.requested (h : Paging outside base httpConfig policy s)
    (hconfig : s.pageConfig outside base httpConfig policy = (gates, .ok (taken, request)))
    (hfits : PageFits outside base httpConfig policy s) :
    Paging outside base httpConfig policy
      { s with
        pageCount := s.pageCount + 1
        events := s.events ++ gates ++ [.request taken request] } := by
  have hgates := pageRequests_gates hconfig
  have hsent : pageRequests (s.events ++ gates ++ [.request taken request]) =
      pageRequests s.events ++ [request] := by
    rw [pageRequests_append, pageRequests_append, hgates, append_nil]
    rfl
  refine ⟨?_, ?_, ?_, ?_⟩
  · rw [hsent, length_append, length_singleton, h.counted]
  · push_cast
    exact hfits.whole
  · exact (h.checked.append_gates hgates).append_request (passed_of_pageConfig hconfig s.events)
  · intro r hr haway
    rw [hsent, mem_append, mem_singleton] at hr
    rcases hr with hr | rfl
    · exact h.home r hr haway
    · exact home_of_pageConfig hconfig hfits haway

theorem Paging.safe (h : Paging outside base httpConfig policy s) :
    SafePages outside base httpConfig policy s.events where
  bounded := by rw [h.counted]; exact h.within
  checked := h.checked
  home := h.home

theorem paging_again {s' : PageState} (h : Paging outside base httpConfig policy s)
    (hcareful : Careful outside base httpConfig policy s)
    (hturn : pageTurn outside base httpConfig policy s = .again s') :
    Paging outside base httpConfig policy s' ∧
      ⌈httpConfig.pagination.pageLimit⌉₊ - s'.pageCount <
        ⌈httpConfig.pagination.pageLimit⌉₊ - s.pageCount := by
  obtain ⟨hroom, gates, taken, request, response, results, s₁, hconfig, -, -, -, rfl⟩ :=
    pageTurn_again hturn
  have hnext := h.requested hconfig (hcareful hroom)
  have hceil := Nat.lt_ceil.mpr hroom
  exact ⟨⟨hnext.counted, hnext.within, hnext.checked, hnext.home⟩, by
    show _ - (s.pageCount + 1) < _
    omega⟩

theorem paging_done {pages : PagesEnd} (h : Paging outside base httpConfig policy s)
    (hcareful : Careful outside base httpConfig policy s)
    (hturn : pageTurn outside base httpConfig policy s = .done pages) :
    SafePages outside base httpConfig policy pages.events := by
  rcases pageTurn_done hturn with rfl | ⟨hroom, gates, config, hconfig, hend⟩
  · exact h.safe
  · rcases hend with ⟨error, rfl⟩ | ⟨taken, request, rfl, hevents, -⟩
    · have hgates := pageRequests_gates hconfig
      have hsent : pageRequests (s.events ++ gates) = pageRequests s.events := by
        rw [pageRequests_append, hgates, append_nil]
      refine ⟨?_, h.checked.append_gates hgates, ?_⟩
      · rw [hsent]
        exact h.safe.bounded
      · rw [hsent]
        exact h.home
    · rw [hevents]
      exact (h.requested hconfig (hcareful hroom)).safe

theorem paging_start (hpositive : 0 < httpConfig.pagination.pageLimit) :
    Paging outside base httpConfig policy {} where
  counted := rfl
  within := by push_cast; exact hpositive.le
  checked before _ _ after heq := by
    have := congrArg List.length heq
    simp at this
  home _ hr := absurd hr not_mem_nil

/-! ## Pages of an offset -/

theorem lookup_assign_congr {fields fields' : Fields} {key : String} (value : Json)
    (h : fields.lookup key = fields'.lookup key) :
    (Js.assign fields key value).lookup key = (Js.assign fields' key value).lookup key := by
  unfold Js.assign
  rw [h]
  split
  · exact h
  · rw [Assoc.lookup_put, Assoc.lookup_put, if_pos rfl, if_pos rfl]

section

variable {pagination : Pagination}

theorem sentParam_offset {params : Fields} (offset : Rat) (hnamed : pagination.offsetParam ≠ "")
    (hproto : pagination.offsetParam ≠ "__proto__")
    (hlimit : pagination.offsetParam ≠ pagination.limitParam) :
    sentParam pagination.offsetParam (offsetParams pagination params offset) =
      some (.num offset) := by
  rw [sentParam, if_neg hnamed, offsetParams]
  simp only [if_pos hnamed]
  have hself := Js.lookup_assign_self params hproto (Json.num offset)
  cases pagination.defaultLimit with
  | none => exact hself
  | some limit =>
    dsimp only
    split
    · rw [Js.lookup_assign_of_ne _ hlimit, hself]
    · exact hself

theorem sentParam_limit {params : Fields} (offset : Rat)
    (hlimit : pagination.offsetParam ≠ "" → pagination.offsetParam ≠ pagination.limitParam) :
    sentParam pagination.limitParam (offsetParams pagination params offset) =
      sentParam pagination.limitParam (offsetParams pagination params 0) := by
  by_cases hnamed : pagination.offsetParam ≠ ""
  · have hother (offset : Rat) :
        (Js.assign params pagination.offsetParam (.num offset)).lookup pagination.limitParam =
          params.lookup pagination.limitParam :=
      Js.lookup_assign_of_ne _ (hlimit hnamed).symm _
    have hagree := (hother offset).trans (hother 0).symm
    unfold sentParam offsetParams
    simp only [if_pos hnamed]
    cases pagination.defaultLimit with
    | none => rw [hagree]
    | some limit =>
      dsimp only
      split
      · rfl
      · split
        · exact lookup_assign_congr _ hagree
        · exact hagree
  · unfold offsetParams
    simp only [if_neg hnamed]

end

theorem pageConfig_offset (htype : httpConfig.pagination.type = .offset) :
    s.pageConfig outside base httpConfig policy =
      ([], .ok (none, { url := base.url
                        params := some (offsetParams httpConfig.pagination base.params s.offset)
                        headers := base.headers })) := by
  simp only [PageState.pageConfig, PageState.followed, PageState.params, htype]

section

variable {server : OffsetServer}

theorem page_at (hfits : OffsetFits server httpConfig.pagination base.params) {m : Nat}
    (hnamed : m = 0 ∨ httpConfig.pagination.offsetParam ≠ "") :
    server.page httpConfig.pagination
        (offsetParams httpConfig.pagination base.params (m : Rat)) =
      (server.list.drop m).take (server.limit (sentParam httpConfig.pagination.limitParam
        (offsetParams httpConfig.pagination base.params 0))) := by
  have hoffset : server.offset (sentParam httpConfig.pagination.offsetParam
      (offsetParams httpConfig.pagination base.params (m : Rat))) = m := by
    by_cases hname : httpConfig.pagination.offsetParam = ""
    · obtain rfl := hnamed.resolve_right fun h => h hname
      rw [sentParam, if_pos hname, server.offset_none]
    · obtain ⟨hproto, hlimit⟩ := hfits.apart hname
      rw [sentParam_offset _ hname hproto hlimit, server.offset_num]
  rw [OffsetServer.page, hoffset, sentParam_limit _ fun hname => (hfits.apart hname).2]

theorem page_filled (htype : httpConfig.pagination.type = .offset)
    (hanswers : server.Answers outside httpConfig)
    (hfits : OffsetFits server httpConfig.pagination base.params) {m : Nat}
    (hresults : s.allResults = (server.list.take m).map .json) (hoffset : s.offset = m)
    (hnamed : m = 0 ∨ httpConfig.pagination.offsetParam ≠ "") {gates : List PageEvent}
    {taken : Option String} {request : PageRequest} {response : PageResponse} {results : Js.At}
    (hconfig : s.pageConfig outside base httpConfig policy = (gates, .ok (taken, request)))
    (hresponse : outside.upstream s.pageCount request = some response)
    (hread : pageResults outside httpConfig response = .ok results) :
    ∃ n, n = server.limit (sentParam httpConfig.pagination.limitParam
        (offsetParams httpConfig.pagination base.params 0)) ∧
      results = .json (.arr ((server.list.drop m).take n)) ∧
      s.allResults ++ collected results = (server.list.take (m + n)).map .json := by
  rw [pageConfig_offset htype] at hconfig
  obtain ⟨-, hconfig⟩ := Prod.mk.inj hconfig
  obtain ⟨-, rfl⟩ := Prod.mk.inj (Except.ok.inj hconfig)
  have hpage := hanswers _ _ _ _ _ hresponse rfl hread
  rw [hoffset, page_at hfits hnamed] at hpage
  refine ⟨_, rfl, hpage, ?_⟩
  rw [hpage, hresults, take_add, map_append]
  rfl

/-- **One page of an offset fills the list up**: after a page of the longest length only. -/
theorem filling_again {s' : PageState} (htype : httpConfig.pagination.type = .offset)
    (hanswers : server.Answers outside httpConfig)
    (hfits : OffsetFits server httpConfig.pagination base.params)
    (h : Filling httpConfig server s)
    (hturn : pageTurn outside base httpConfig policy s = .again s') :
    Filling httpConfig server s' := by
  obtain ⟨hroom, gates, taken, request, response, results, s₁, hconfig, hresponse, hread, hnext,
    rfl⟩ := pageTurn_again hturn
  obtain ⟨m, hresults, hnow⟩ := h
  obtain ⟨hoffset, hnamed⟩ := hnow hroom
  obtain ⟨n, hn, hpage, hfilled⟩ :=
    page_filled htype hanswers hfits hresults hoffset hnamed hconfig hresponse hread
  subst hpage
  simp only [PageState.next, htype, arrayItems] at hnext
  split at hnext
  case isFalse => cases hnext
  next hlong =>
  obtain rfl := Option.some.inj hnext
  by_cases hmore : ((s.pageCount + 1 : Nat) : Rat) < httpConfig.pagination.pageLimit
  · -- a longer page than the longest is none, so the step is that length
    have hlength : ((server.list.drop m).take n).length ≤
        server.pageSize httpConfig.pagination base.params := by
      rw [OffsetServer.pageSize, ← hn, length_take, length_drop]
      omega
    have hpages : ¬httpConfig.pagination.pageLimit ≤ 1 := by
      push_cast at hmore
      have : (0 : Rat) ≤ s.pageCount := Nat.cast_nonneg _
      linarith
    have hstep : httpConfig.pagination.offsetParam ≠ "" ∧
        (server.pageSize httpConfig.pagination base.params : Rat) =
          httpConfig.pagination.step := by
      rcases hfits.fits with hone | hshort | hequal
      · exact absurd hone hpages
      · have : ((server.list.drop m).take n).length < httpConfig.pagination.step :=
          lt_of_le_of_lt (Nat.cast_le.mpr hlength) hshort
        exact absurd hlong (not_le.mpr this)
      · exact hequal
    have hfull : ((server.list.drop m).take n).length =
        server.pageSize httpConfig.pagination base.params := by
      rw [← hstep.2, Nat.cast_le] at hlong
      exact le_antisymm hlength hlong
    refine ⟨m + server.pageSize httpConfig.pagination base.params, ?_, fun _ => ⟨?_, .inr hstep.1⟩⟩
    · show s.allResults ++ collected _ = _
      rw [hfilled, take_add, take_add, ← hfull, length_take, ← take_eq_take_min]
    · show s.offset + httpConfig.pagination.step = _
      rw [hoffset, ← hstep.2]
      push_cast
      rfl
  · exact ⟨m + n, hfilled, fun hlater => absurd hlater hmore⟩

theorem filling_done {pages : PagesEnd} (htype : httpConfig.pagination.type = .offset)
    (hanswers : server.Answers outside httpConfig)
    (hfits : OffsetFits server httpConfig.pagination base.params)
    (h : Filling httpConfig server s)
    (hturn : pageTurn outside base httpConfig policy s = .done pages) {items : List Js.At}
    (hitems : pages.result = .ok items) : items <+: server.list.map .json := by
  obtain ⟨m, hresults, hnow⟩ := h
  rcases pageTurn_done hturn with rfl | ⟨hroom, gates, config, hconfig, hend⟩
  · obtain rfl := Except.ok.inj hitems
    show s.allResults <+: _
    rw [hresults]
    exact (List.take_prefix m server.list).map _
  · rcases hend with ⟨error, rfl⟩ | ⟨taken, request, rfl, -, hok⟩
    · cases hitems
    · obtain ⟨response, results, hresponse, hread, rfl⟩ := hok items hitems
      obtain ⟨hoffset, hnamed⟩ := hnow hroom
      obtain ⟨n, -, -, hfilled⟩ :=
        page_filled htype hanswers hfits hresults hoffset hnamed hconfig hresponse hread
      rw [hfilled]
      exact (List.take_prefix _ server.list).map _

end

end

/-! ## Every run -/

/-- **Pagination is safe and does not repeat**, in every run whose pages fit. -/
theorem pagination_safe (outside : Outside) (base : BaseConfig) (httpConfig : PagedConfig)
    (policy : Option GatewayToolSecurityPolicy) (n : Nat)
    (hpositive : 0 < httpConfig.pagination.pageLimit)
    (hcareful : Loop.Along (pageTurn outside base httpConfig policy)
      (Careful outside base httpConfig policy) (⌈httpConfig.pagination.pageLimit⌉₊ + 1 + n) {}) :
    ∃ pages, executeWithPagination outside base httpConfig policy
        (⌈httpConfig.pagination.pageLimit⌉₊ + 1 + n) = some pages ∧
      SafePages outside base httpConfig policy pages.events ∧
      ∀ server : OffsetServer, httpConfig.pagination.type = .offset →
        server.Answers outside httpConfig →
        OffsetFits server httpConfig.pagination base.params →
          ∀ items, pages.result = .ok items → items <+: server.list.map .json := by
  obtain ⟨pages, hrun, hsafe⟩ := Loop.run_spec_along
    (Paging outside base httpConfig policy)
    (fun s => ⌈httpConfig.pagination.pageLimit⌉₊ - s.pageCount)
    (fun pages => SafePages outside base httpConfig policy pages.events)
    (fun _ _ h hcareful hturn => paging_again h hcareful hturn)
    (fun _ _ h hcareful hturn => paging_done h hcareful hturn)
    (paging_start hpositive)
    (by show ⌈httpConfig.pagination.pageLimit⌉₊ - 0 < _; omega) hcareful
  refine ⟨pages, hrun, hsafe, fun server htype hanswers hfits items hitems => ?_⟩
  refine Loop.run_inv (Filling httpConfig server)
    (Q := fun pages => pages.result = .ok items → items <+: server.list.map .json)
    (fun _ _ h hturn => filling_again htype hanswers hfits h hturn)
    (fun _ _ h hturn hitems => filling_done htype hanswers hfits h hturn hitems)
    ⟨0, rfl, fun _ => ⟨by norm_num, .inl rfl⟩⟩ hrun hitems

theorem careful_of_whole {outside : Outside} {base : BaseConfig} {httpConfig : PagedConfig}
    {policy : Option GatewayToolSecurityPolicy} {n : Nat} (hnone : base.credential = [])
    (hwhole : httpConfig.pagination.pageLimit = n) (s : PageState) :
    Careful outside base httpConfig policy s := by
  intro hroom
  rw [hwhole, Nat.cast_lt] at hroom
  refine ⟨?_, .inl hnone⟩
  rw [hwhole]
  exact_mod_cast hroom

/-! ## Two upstreams -/

def hostParser (hosts : List String) : UrlParser where
  parse text _ :=
    (hosts.find? fun host => ("https://" ++ host ++ "/").toList.isPrefixOf text.toList).map
      fun host =>
        { protocol := "https:", hostname := host, origin := "https://" ++ host, href := text }

def publicAddresses : Addresses where
  isIP _ := false
  isBlockedHostname _ := false
  blocked _ := none

def Outside.ofUpstream (upstream : Nat → PageRequest → Option PageResponse) : Outside where
  engine := wholeEngine
  member _ _ := .undefined
  succeeds _ _ _ := true
  parser := hostParser ["api.test", "cdn.test"]
  addresses := publicAddresses
  casing := Casing.settled
  upstream

def nextPageElsewhere : Nat → PageRequest → Option PageResponse := fun _ _ =>
  some { data := .obj [("items", .arr [.num 1]), ("next", .str "https://cdn.test/items")] }

def listServer (list : List Json) (pageSize : Nat) : OffsetServer where
  list
  offset
    | some (.num offset) => offset.num.toNat
    | _ => 0
  limit
    | some (.num limit) => limit.num.toNat
    | _ => pageSize
  offset_none := rfl
  offset_num n := by simp
  limit_num n := by simp

/-- An API that answers an offset with the rest of the list, but with so many items at most. -/
def offsetUpstream (list : List Json) (pageSize : Nat) :
    Nat → PageRequest → Option PageResponse := fun _ request =>
  let offset := (listServer list pageSize).offset ((request.params.getD []).lookup "offset")
  some { data := .arr ((list.drop offset).take pageSize) }

def bearerBase : BaseConfig where
  url := "https://api.test/items"
  credential := [("Authorization", "Bearer secret")]

def cursorConfig : PagedConfig where
  pagination :=
    { type := .cursor, cursorPath := "next", resultsPath := "items", maxPages := some 2 }

def offsetConfig (defaultLimit : Rat) : PagedConfig where
  pagination :=
    { type := .offset, offsetParam := "offset", defaultLimit := some defaultLimit
      maxPages := some 3 }

theorem listServer_answers (list : List Json) (pageSize : Nat) (defaultLimit : Rat) :
    (listServer list pageSize).Answers (.ofUpstream (offsetUpstream list pageSize))
      (offsetConfig defaultLimit) := by
  intro n request params response results hresponse hparams hread
  obtain rfl := Option.some.inj hresponse
  obtain rfl := Except.ok.inj hread
  rw [hparams]
  rfl

/-- Pages of two items and a step of two. -/
theorem pagination_safe_offset :
    ∃ pages, executeWithPagination (.ofUpstream (offsetUpstream [.num 1, .num 2, .num 3] 2))
        { url := "https://api.test/items" } (offsetConfig 2) none
        (⌈(offsetConfig 2).pagination.pageLimit⌉₊ + 1 + 0) = some pages ∧
      SafePages (.ofUpstream (offsetUpstream [.num 1, .num 2, .num 3] 2))
        { url := "https://api.test/items" } (offsetConfig 2) none pages.events ∧
      ∀ items, pages.result = .ok items →
        items <+: [.json (.num 1), .json (.num 2), .json (.num 3)] := by
  obtain ⟨pages, hrun, hsafe, hserver⟩ := pagination_safe
    (.ofUpstream (offsetUpstream [.num 1, .num 2, .num 3] 2)) { url := "https://api.test/items" }
    (offsetConfig 2) none 0 (by decide +kernel)
    (Loop.along_of_forall (careful_of_whole (n := 3) rfl (by decide +kernel)) _ _)
  refine ⟨pages, hrun, hsafe, fun items hitems => ?_⟩
  refine hserver (listServer [.num 1, .num 2, .num 3] 2) rfl (listServer_answers _ 2 2) ?_ items
    hitems
  exact ⟨fun _ => by decide, .inr (.inr (by decide +kernel))⟩

/-- The credential goes to the next page's host; a page of two with a step of one repeats the
second. -/
theorem pages_leak_and_repeat :
    (∃ pages, executeWithPagination (.ofUpstream nextPageElsewhere) bearerBase cursorConfig none 4 =
        some pages ∧
      ¬CredentialStaysHome (.ofUpstream nextPageElsewhere) bearerBase (pageRequests pages.events)) ∧
    (executeWithPagination (.ofUpstream (offsetUpstream [.num 1, .num 2, .num 3] 2))
        { url := "https://api.test/items" } (offsetConfig 1) none 4).map (·.result) =
      some (.ok ([1, 2, 2, 3, 3].map fun n => .json (.num n))) := by
  refine ⟨⟨_, rfl, fun h => ?_⟩, ?_⟩
  · refine h { url := "https://cdn.test/items", params := none, headers := bearerBase.headers }
      ?_ ?_ ?_ <;> decide +kernel
  · decide +kernel

end Almyty.Tools
