import Kasei.Lib.Calendar
import Kasei.Landing.Display
import Kasei.Models.RoundTrip

/-! # The delivery slots on offer

`CheckoutDetailCell` offers six slots of two hours on any day from tomorrow to
the same day of next month. The calendar is Gregorian, and its days have 24
hours: the zone that the app is made for has no daylight saving. What the pickers
show is a day between the bounds and a row: in the mode `.date` a picker has no
hours, and its date is the midnight of the day.
-/

namespace Kasei.Checkout

open JsonTree Calendar Landing Posting RoundTrip

/-- An hour of a day; the components may lie outside their ranges. -/
structure DateComponents where
  year : Int
  month : Int
  day : Int
  hour : Int := 0

/-- `Calendar.current.date(from:)`, in seconds since 1970. -/
def calendarDate (secondsFromGMT : Int) (components : DateComponents) : ℚ :=
  ((dayNumber components.year components.month components.day - dayNumber 1970 1 1) * 86400 +
    components.hour * 3600 - secondsFromGMT : Int)

/-- The moment lies on the day of these components, as those that
    `Calendar.current.dateComponents` returns. -/
structure OnDay (secondsFromGMT : Int) (today : DateComponents) (now : ℚ) : Prop where
  midnight : today.hour = 0
  january : 1 ≤ today.month
  december : today.month ≤ 12
  begun : calendarDate secondsFromGMT today ≤ now
  ends : now < calendarDate secondsFromGMT today + 86400

structure CheckoutDetailCell where
  minimumDate : ℚ
  maximumDate : ℚ
  slots : List String := []
  timeIntervals : List ℚ := []

def tomorrowDate (secondsFromGMT : Int) (today : DateComponents) : ℚ :=
  calendarDate secondsFromGMT ⟨today.year, today.month, today.day + 1, 0⟩

def nextMonthDate (secondsFromGMT : Int) (today : DateComponents) : ℚ :=
  calendarDate secondsFromGMT ⟨today.year, today.month + 1, today.day, 0⟩

def slotTitle (hourText : Int → String) (hours : Int × Int) : String :=
  hourText hours.1 ++ " - " ++ hourText hours.2

def slotInterval (hours : Int × Int) : ℚ := (hours.1 * 60 * 60 : Int)

def addTimeslotString (hourText : Int → String) (cell : CheckoutDetailCell) (hours : Int × Int) :
    CheckoutDetailCell :=
  { cell with
    slots := cell.slots ++ [slotTitle hourText hours]
    timeIntervals := cell.timeIntervals ++ [slotInterval hours] }

def offered : List (Int × Int) := [(8, 10), (10, 12), (12, 14), (14, 16), (16, 18), (18, 20)]

def awakeFromNib (secondsFromGMT : Int) (hourText : Int → String) (today : DateComponents) :
    CheckoutDetailCell :=
  offered.foldl (addTimeslotString hourText)
    { minimumDate := tomorrowDate secondsFromGMT today
      maximumDate := nextMonthDate secondsFromGMT today }

/-- The date and the row that the pickers show. -/
structure Picked where
  date : ℚ
  row : Nat

/-- Pickers show nothing else. -/
structure Pickable (secondsFromGMT : Int) (cell : CheckoutDetailCell) (picked : Picked) :
    Prop where
  midnight : ∃ day : DateComponents, day.hour = 0 ∧ picked.date = calendarDate secondsFromGMT day
  earliest : cell.minimumDate ≤ picked.date
  latest : picked.date ≤ cell.maximumDate
  listed : picked.row < cell.slots.length

/-- `none` is a row without an interval. -/
def getStartDelSlot (cell : CheckoutDetailCell) (picked : Picked) : Option ℚ :=
  cell.timeIntervals[picked.row]?.map fun timeslot => picked.date + timeslot

section Cell

variable {hourText : Int → String}

theorem addTimeslots (slots : List (Int × Int)) (cell : CheckoutDetailCell) :
    slots.foldl (addTimeslotString hourText) cell = { cell with
      slots := cell.slots ++ slots.map (slotTitle hourText)
      timeIntervals := cell.timeIntervals ++ slots.map slotInterval } := by
  induction slots generalizing cell with
  | nil => simp
  | cons hours rest ih => simp [ih, addTimeslotString]

variable {secondsFromGMT : Int} {today : DateComponents} {picked : Picked}

theorem getStartDelSlot_eq
    (pickable : Pickable secondsFromGMT (awakeFromNib secondsFromGMT hourText today) picked) :
    ∃ hours ∈ offered,
      (awakeFromNib secondsFromGMT hourText today).slots[picked.row]? =
        some (slotTitle hourText hours) ∧
      offered[picked.row]? = some hours ∧
      getStartDelSlot (awakeFromNib secondsFromGMT hourText today) picked =
        some (picked.date + hours.1 * 3600) := by
  have inRange : picked.row < offered.length := by
    simpa [awakeFromNib, addTimeslots] using pickable.listed
  obtain ⟨hours, found⟩ : ∃ hours, offered[picked.row]? = some hours :=
    ⟨_, List.getElem?_eq_getElem inRange⟩
  refine ⟨hours, List.mem_of_getElem? found, ?_, found, ?_⟩
  · simp [awakeFromNib, addTimeslots, found]
  · simp only [getStartDelSlot, awakeFromNib, addTimeslots, List.nil_append, List.getElem?_map,
      found, Option.map_some, slotInterval, Option.some.injEq, add_right_inj]
    push_cast
    ring

theorem offered_hours {hours : Int × Int} (listed : hours ∈ offered) :
    8 ≤ hours.1 ∧ hours.1 ≤ 18 ∧ hours.2 = hours.1 + 2 ∧ hours.1 % 2 = 0 := by
  simp only [offered, List.mem_cons, List.not_mem_nil, or_false] at listed
  rcases listed with rfl | rfl | rfl | rfl | rfl | rfl <;> decide

end Cell

theorem calendarDate_hour (secondsFromGMT : Int) {day : DateComponents} (midnight : day.hour = 0)
    (hour : Int) : calendarDate secondsFromGMT { day with hour := hour } =
      calendarDate secondsFromGMT day + hour * 3600 := by
  simp only [calendarDate, midnight]
  push_cast
  ring

section Window

variable {secondsFromGMT : Int} {today : DateComponents} {now : ℚ}

theorem tomorrowDate_eq (onDay : OnDay secondsFromGMT today now) :
    tomorrowDate secondsFromGMT today = calendarDate secondsFromGMT today + 86400 := by
  simp only [tomorrowDate, calendarDate, dayNumber_add_day, onDay.midnight]
  push_cast
  ring

/-- The last day on offer is 28 to 31 days away. -/
theorem nextMonthDate_bounds (onDay : OnDay secondsFromGMT today now) :
    calendarDate secondsFromGMT today + 28 * 86400 ≤ nextMonthDate secondsFromGMT today ∧
      nextMonthDate secondsFromGMT today ≤ calendarDate secondsFromGMT today + 31 * 86400 := by
  have later := dayNumber_next_month today.year today.day onDay.january onDay.december
  obtain ⟨low, high⟩ := daysInMonth_bounds today.year (today.month - 1).toNat
  generalize daysInMonth today.year (today.month - 1).toNat = days at later low high
  have low' : (28 : ℚ) ≤ days := by exact_mod_cast low
  have high' : (days : ℚ) ≤ 31 := by exact_mod_cast high
  simp only [nextMonthDate, calendarDate, later, onDay.midnight]
  push_cast
  constructor <;> linarith

end Window

/-- Two days begin a whole number of days apart. -/
theorem Pickable.whole_days {secondsFromGMT : Int} {cell : CheckoutDetailCell}
    {picked other : Picked} (pickable : Pickable secondsFromGMT cell picked)
    (pickable' : Pickable secondsFromGMT cell other) :
    ∃ days : Int, other.date = picked.date + days * 86400 := by
  obtain ⟨day, midnight, date⟩ := pickable.midnight
  obtain ⟨day', midnight', date'⟩ := pickable'.midnight
  refine ⟨dayNumber day'.year day'.month day'.day - dayNumber day.year day.month day.day, ?_⟩
  rw [date, date', calendarDate, calendarDate, midnight, midnight']
  push_cast
  ring

/-- The windows of two picks do not meet. -/
theorem getStartDelSlot_apart {hourText : Int → String} {secondsFromGMT : Int}
    {today : DateComponents} {picked other : Picked}
    (pickable : Pickable secondsFromGMT (awakeFromNib secondsFromGMT hourText today) picked)
    (pickable' : Pickable secondsFromGMT (awakeFromNib secondsFromGMT hourText today) other)
    {start start' : ℚ}
    (chosen : getStartDelSlot (awakeFromNib secondsFromGMT hourText today) picked = some start)
    (chosen' : getStartDelSlot (awakeFromNib secondsFromGMT hourText today) other = some start')
    (meet : |start' - start| < 7200) : picked = other := by
  obtain ⟨days, whole⟩ := pickable.whole_days pickable'
  obtain ⟨hours, listed, -, found, begins⟩ := getStartDelSlot_eq pickable
  obtain ⟨hours', listed', -, found', begins'⟩ := getStartDelSlot_eq pickable'
  obtain rfl := Option.some.inj (chosen.symm.trans begins)
  obtain rfl := Option.some.inj (chosen'.symm.trans begins')
  obtain ⟨early, late, -, even⟩ := offered_hours listed
  obtain ⟨early', late', -, even'⟩ := offered_hours listed'
  have near : |days * 86400 + (hours'.1 - hours.1) * 3600| < 7200 := by
    rw [whole] at meet
    have cast : picked.date + days * 86400 + hours'.1 * 3600 - (picked.date + hours.1 * 3600) =
        ((days * 86400 + (hours'.1 - hours.1) * 3600 : Int) : ℚ) := by
      push_cast
      ring
    rw [cast] at meet
    exact_mod_cast meet
  rw [abs_lt] at near
  have sameDay : days = 0 := by omega
  have sameHour : hours.1 = hours'.1 := by omega
  have rows : picked.row = other.row := by
    have inRange := (List.getElem?_eq_some_iff.mp found).1
    have starts : (offered.map Prod.fst)[picked.row]? = (offered.map Prod.fst)[other.row]? := by
      simp [found, found', sameHour]
    exact (List.getElem?_inj (by simpa using inRange) (by decide)).mp starts
  obtain ⟨date, row⟩ := picked
  obtain ⟨date', row'⟩ := other
  simp only at whole rows
  rw [rows, whole, sameDay]
  simp

/-- On every day of the calendar there is a day to pick, and whatever is picked,
    the window that is posted has the hours of its row on the day picked, begins
    more than eight hours after any moment of the day the screen was opened on,
    and within 32 days of it. Two picks whose windows meet are the same pick. -/
theorem slots_on_offer {secondsFromGMT : Int} {today : DateComponents} {now : ℚ}
    (onDay : OnDay secondsFromGMT today now) (hourText : Int → String) :
    tomorrowDate secondsFromGMT today ≤ nextMonthDate secondsFromGMT today ∧
      ∀ picked, Pickable secondsFromGMT (awakeFromNib secondsFromGMT hourText today) picked →
        ∃ start hours, ∃ day : DateComponents,
          getStartDelSlot (awakeFromNib secondsFromGMT hourText today) picked = some start ∧
          (awakeFromNib secondsFromGMT hourText today).slots[picked.row]? =
            some (slotTitle hourText hours) ∧
          day.hour = 0 ∧ picked.date = calendarDate secondsFromGMT day ∧
          start = calendarDate secondsFromGMT { day with hour := hours.1 } ∧
          start + 2 * 3600 = calendarDate secondsFromGMT { day with hour := hours.2 } ∧
          now + 8 * 3600 < start ∧ start < now + 32 * 86400 ∧
          ∀ other start',
            Pickable secondsFromGMT (awakeFromNib secondsFromGMT hourText today) other →
            getStartDelSlot (awakeFromNib secondsFromGMT hourText today) other = some start' →
            |start' - start| < 2 * 3600 → picked = other := by
  have tomorrow := tomorrowDate_eq onDay
  obtain ⟨low, high⟩ := nextMonthDate_bounds onDay
  have begun := onDay.begun
  have ends := onDay.ends
  refine ⟨by linarith, fun picked pickable => ?_⟩
  obtain ⟨hours, listed, title, -, start⟩ := getStartDelSlot_eq pickable
  obtain ⟨day, midnight, date⟩ := pickable.midnight
  obtain ⟨early, late, length, -⟩ := offered_hours listed
  have earliest : tomorrowDate secondsFromGMT today ≤ picked.date := by
    simpa [awakeFromNib, addTimeslots] using pickable.earliest
  have latest : picked.date ≤ nextMonthDate secondsFromGMT today := by
    simpa [awakeFromNib, addTimeslots] using pickable.latest
  have early' : (8 : ℚ) ≤ hours.1 := by exact_mod_cast early
  have late' : (hours.1 : ℚ) ≤ 18 := by exact_mod_cast late
  refine ⟨_, hours, day, start, title, midnight, date, ?_, ?_, ?_, ?_, ?_⟩
  · rw [calendarDate_hour _ midnight, date]
  · rw [calendarDate_hour _ midnight, date, length]
    push_cast
    ring
  · linarith
  · linarith
  · intro other start' pickable' chosen' meet
    exact getStartDelSlot_apart pickable pickable' start chosen' (by linarith)

section Example

/-- 31 January 2021 in Singapore, an hour before midnight. -/
private def lateJanuary : DateComponents := ⟨2021, 1, 31, 0⟩

private theorem lateJanuary_onDay : OnDay 28800 lateJanuary 1612105200 := by
  constructor <;> norm_num [lateJanuary, calendarDate, dayNumber, daysBeforeYear, daysBeforeMonth,
    daysInMonth, isLeap]

/-- February has no day 31, so the last day on offer is 3 March. -/
theorem slots_on_offer_late_january :
    tomorrowDate 28800 lateJanuary ≤ nextMonthDate 28800 lateJanuary ∧
      nextMonthDate 28800 lateJanuary = calendarDate 28800 ⟨2021, 3, 3, 0⟩ := by
  refine ⟨(slots_on_offer lateJanuary_onDay fun _ => "").1, ?_⟩
  have day : dayNumber 2021 (1 + 1) 31 = dayNumber 2021 3 3 := by decide
  simp only [nextMonthDate, calendarDate, lateJanuary, day]

end Example

section Posted

variable {hourText : Int → String} {secondsFromGMT : Int} {today : DateComponents}
  {picked : Picked} {clock : Clock} {req : Request}

theorem rounded_intCast (seconds : Int) : rounded seconds = seconds := by
  have moved := abs_rounded_sub_le (seconds : ℚ)
  rw [abs_le] at moved
  have below : (rounded (seconds : ℚ) : ℚ) < seconds + 1 := by linarith
  have above : (seconds : ℚ) < rounded (seconds : ℚ) + 1 := by linarith
  have below' : rounded (seconds : ℚ) < seconds + 1 := by exact_mod_cast below
  have above' : seconds < rounded (seconds : ℚ) + 1 := by exact_mod_cast above
  omega

/-- The window that was picked, the hours of the row on the day, is what the
    request shows once it has been posted and read back. -/
theorem picked_slot_is_shown
    (pickable : Pickable secondsFromGMT (awakeFromNib secondsFromGMT hourText today) picked)
    (chosen : req.delSlotStart =
      getStartDelSlot (awakeFromNib secondsFromGMT hourText today) picked)
    (key : String) (items : List RequestItem) (rendering : Rendering) :
    ∃ head hours, ∃ day : DateComponents, offered[picked.row]? = some hours ∧
      day.hour = 0 ∧ picked.date = calendarDate secondsFromGMT day ∧
      decodeHead ⟨key, requestDictionary clock.now (slotMillis clock req) req⟩ = some head ∧
      delSlotString rendering (head.request items) =
        some (rendering.slotStart (calendarDate secondsFromGMT { day with hour := hours.1 }) ++
          " - " ++ rendering.slotEnd (calendarDate secondsFromGMT { day with hour := hours.2 })) := by
  obtain ⟨hours, listed, -, found, begins⟩ := getStartDelSlot_eq pickable
  obtain ⟨day, midnight, date⟩ := pickable.midnight
  refine ⟨_, hours, day, found, midnight, date, decodeHead_requestDictionary key, ?_⟩
  -- midnight is a whole second, so nothing is lost in the rounding
  obtain ⟨seconds, whole⟩ : ∃ seconds : Int, picked.date = seconds := ⟨_, date⟩
  have start : picked.date + hours.1 * 3600 = ((seconds + hours.1 * 3600 : Int) : ℚ) := by
    rw [whole]
    push_cast
    ring
  have stored : (slotMillis clock req : ℚ) / 1000 = picked.date + hours.1 * 3600 := by
    rw [slotMillis, chosen, begins, Option.getD_some, start, rounded_intCast]
    push_cast
    ring
  have ends : picked.date + hours.1 * 3600 + 60 * 60 * 2 = picked.date + hours.2 * 3600 := by
    rw [(offered_hours listed).2.2.1]
    push_cast
    ring
  simp only [delSlotString, RequestHead.request, Option.map_some, stored, ends]
  rw [calendarDate_hour _ midnight hours.1, calendarDate_hour _ midnight hours.2, date]

end Posted

section Example

/-- 1 February 2021, from 12 to 14. -/
private def firstFebruary : Picked := ⟨1612108800, 2⟩

private theorem firstFebruary_pickable (hourText : Int → String) :
    Pickable 28800 (awakeFromNib 28800 hourText lateJanuary) firstFebruary := by
  have tomorrow := tomorrowDate_eq lateJanuary_onDay
  have bounds := nextMonthDate_bounds lateJanuary_onDay
  have today : calendarDate 28800 lateJanuary = 1612022400 := by
    norm_num [lateJanuary, calendarDate, dayNumber, daysBeforeYear, daysBeforeMonth]
  rw [today] at tomorrow bounds
  constructor
  · refine ⟨⟨2021, 2, 1, 0⟩, rfl, ?_⟩
    norm_num [firstFebruary, calendarDate, dayNumber, daysBeforeYear, daysBeforeMonth, daysInMonth,
      isLeap]
  · simp only [awakeFromNib, addTimeslots, tomorrow, firstFebruary]
    norm_num
  · simp only [awakeFromNib, addTimeslots, firstFebruary]
    linarith
  · simp only [awakeFromNib, addTimeslots, firstFebruary]
    simp [offered]

private def plainRendering : Rendering := ⟨id, fun _ => "from", fun _ => "to"⟩

private def lunchRequest : Request :=
  { id := none, dateCreated := none, senderID := "amy", status := some "sent"
    delSlotStart := some 1612152000, items := [] }

private def lateClock : Clock := ⟨1612105200, 1612051200⟩

theorem picked_slot_is_shown_february :
    ∃ head, decodeHead ⟨"r1", requestDictionary lateClock.now
        (slotMillis lateClock lunchRequest) lunchRequest⟩ = some head ∧
      delSlotString plainRendering (head.request []) = some "from - to" := by
  have chosen : lunchRequest.delSlotStart =
      getStartDelSlot (awakeFromNib 28800 (fun _ => "") lateJanuary) firstFebruary := by
    simp only [getStartDelSlot, awakeFromNib, addTimeslots, firstFebruary, lunchRequest]
    norm_num [offered, slotInterval]
  obtain ⟨head, hours, day, -, -, -, decoded, shown⟩ := picked_slot_is_shown
    (firstFebruary_pickable fun _ => "") chosen "r1" [] plainRendering
  exact ⟨head, decoded, shown⟩

end Example

end Kasei.Checkout
