import DataGrid.Main
import DataGrid.Proofs.ComposedPredicate
import DataGrid.Proofs.RequestIsolation
import DataGrid.Proofs.RequestSuccess
import DataGrid.Proofs.RequestTotals
import DataGrid.Proofs.Refiltering
import DataGrid.Proofs.TotalTypes
import DataGrid.Proofs.ReportedTotals
import DataGrid.Proofs.FieldOrder
import DataGrid.Proofs.SortedRows
import DataGrid.Proofs.PercentText
import DataGrid.Proofs.OperatorCodes
import DataGrid.Proofs.FilterEntries
import DataGrid.Proofs.QueryRoundTrip
import DataGrid.Proofs.QueryEntries
import DataGrid.Proofs.SortState
import DataGrid.Proofs.SameValue
import DataGrid.Proofs.DuplicateRows
import DataGrid.Proofs.NumberReadings
import DataGrid.Proofs.DuplicateReadings
import DataGrid.Proofs.ColumnEdits
import DataGrid.Proofs.ComparisonFilters
import DataGrid.Proofs.ExactSums
import DataGrid.Proofs.ValueOrder
import DataGrid.Proofs.ReorderedRows
import DataGrid.Proofs.Extremes
import DataGrid.Proofs.RelatedCounts
import DataGrid.Proofs.RoundedQuotients
import DataGrid.Proofs.BinaryDecimals
import DataGrid.Proofs.BinarySums
import DataGrid.Proofs.IntegerAverages
import DataGrid.Proofs.TextFilters
import DataGrid.Proofs.IntegerKeys
import DataGrid.Proofs.ClockTexts
import DataGrid.Proofs.TemporalTexts
import DataGrid.Proofs.CalculationOrder
import DataGrid.Proofs.RenderedNumbers
import DataGrid.Proofs.GroupedDigits
import DataGrid.Proofs.DayNumbers
import DataGrid.Proofs.TrimmedText
import DataGrid.Proofs.AgreeingReaders
import DataGrid.Proofs.OffsetTimes
import DataGrid.Proofs.OffsetColons
import DataGrid.Proofs.ValidDefinitions
import DataGrid.Proofs.CanonicalPaths
import DataGrid.Proofs.PrintedCells
import DataGrid.Proofs.QuotedLiterals
