import Toolbox.Toml.Number

/-!
# Dates and times

A date, a time of day, or both, with or without the distance from UTC. The day must exist in its
month.
-/

namespace Toolbox.Toml

open Scan

/-- A number of exactly `n` digits that lies within bounds. -/
def fixedNumber (n low high : Nat) : Scan Nat := do
  let value := digitsValue 10 (← count Char.isDigit n)
  if low ≤ value ∧ value ≤ high then return value else failure

def isLeapYear (year : Nat) : Bool :=
  year % 4 = 0 && (year % 100 ≠ 0 || year % 400 = 0)

def daysInMonth (year month : Nat) : Nat :=
  if month = 2 then (if isLeapYear year then 29 else 28)
  else if month ∈ [4, 6, 9, 11] then 30
  else 31

def date : Scan Date := do
  let year ← fixedNumber 4 0 9999
  char '-'
  let month ← fixedNumber 2 1 12
  char '-'
  let day ← fixedNumber 2 1 31
  if day ≤ daysInMonth year month then return { year, month, day } else failure

def time : Scan Time := do
  let hour ← fixedNumber 2 0 23
  char ':'
  let minute ← fixedNumber 2 0 59
  char ':'
  let second ← fixedNumber 2 0 60
  let fraction ← optional do
    char '.'
    let first ← satisfy Char.isDigit
    return first :: (← takeWhile Char.isDigit)
  return { hour, minute, second, fraction := fraction.getD [] }

def utcOffset : Scan Int :=
  (do let _ ← satisfy fun c => c = 'Z' || c = 'z'; return 0) <|>
  (do
    let _ ← ahead (satisfy fun c => c = '+' || c = '-')
    let negative ← sign
    let hour ← fixedNumber 2 0 23
    char ':'
    let minute ← fixedNumber 2 0 59
    let minutes : Int := hour * 60 + minute
    return if negative then -minutes else minutes)

def timeOfDate (d : Date) : Scan Moment := do
  let _ ← satisfy fun c => c = 'T' || c = 't' || c = ' '
  let t ← time
  (do return .offset d t (← utcOffset)) <|> pure (.local d t)

def moment : Scan Moment :=
  (do
    let d ← date
    timeOfDate d <|> pure (.date d)) <|>
  (do return .time (← time))

end Toolbox.Toml
