import Emwin.Library.Decimal
import Emwin.Parser.Support

/-! Coordinates as exact rational numbers, and a calendar for texts without times. -/

namespace Emwin.Parser
open Library

instance : Measure ℚ where
  natCast := Nat.cast
  lessThan left right := decide (left < right)
  same left right := decide (left = right)
  parse := parseDecimal
  format := formatFixed

/-- A calendar that is asked for no time. -/
def bareCalendar : Calendar where
  parseCompact _ := none
  year _ := 2025
  month _ := 3
  yearInRange _ := by decide
  monthInRange _ := by decide
  timeOf _ _ _ _ _ := none
  clockOn _ _ _ _ := none

end Emwin.Parser
